/-
  AetherGateway.Streams.Manager — `ServerStreamManager` and its stream-get actions
  (libs/gateway/server_stream_manager.cpp), with the parts of `Gateway` and of aether
  they read and write.

  Objects are named by their position: a `Server` in `servers`, a `ServerStream` in
  `streams`, a `StreamGetAction` in `actions`. `actions` is aether's action registry:
  it owns an action until the action reports its result or its error (then its slot is
  `none`). `registry` is `Aether::GetServer`, `cloud` the persistent gateway cloud.
  `streamCache` holds weak references: whether a stream is alive depends on who else
  holds it, so the functions that lock or purge one take `alive`.

  aether's `StateMachine` is a value with a changed flag: assigning sets it (and
  triggers the action), `acquire` reads the value and clears it. A cloud request
  (`GetServersAction`) ends once, by servers, by an error or by being stopped; the code
  subscribes to the first two.

  History: `madeFor` of a stream is the request it was made for, `added` the calls of
  `Aether::AddServer`.
-/

import AetherGateway.Runs

namespace AetherGateway.Streams

/-- An unsigned integer of at most 32 bits. -/
abbrev ServerId := UInt32

structure Endpoint where
  ip : Nat
  port : UInt16
  protocol : Nat
  deriving DecidableEq, Repr

structure ServerEndpoints where
  endpoints : List Endpoint
  deriving DecidableEq, Repr

/-- `LocalPort::ServeKind`: the server a stream is asked for. -/
inductive ServeKind where
  | id (serverId : ServerId)
  | endpoints (e : ServerEndpoints)
  deriving DecidableEq, Repr

structure Server where
  serverId : ServerId
  endpoints : List Endpoint
  deriving DecidableEq, Repr

structure ProtocolAndPort where
  protocol : Nat
  port : UInt16
  deriving DecidableEq, Repr

structure IpAddressAndPorts where
  ip : Nat
  protocolAndPorts : List ProtocolAndPort
  deriving DecidableEq, Repr

structure ServerDescriptor where
  serverId : ServerId
  ips : List IpAddressAndPorts
  deriving DecidableEq, Repr

inductive LinkState where
  | unlinked
  | linked
  | linkError
  deriving DecidableEq, Repr

structure ServerStream where
  server : Nat
  linkState : LinkState
  madeFor : ServeKind
  deriving DecidableEq, Repr

/-! ## The stream-get actions -/

structure StateMachine (σ : Type) where
  value : σ
  changed : Bool
  deriving DecidableEq, Repr

def StateMachine.set {σ : Type} (v : σ) : StateMachine σ := ⟨v, true⟩

def StateMachine.acquire {σ : Type} (m : StateMachine σ) : StateMachine σ := { m with changed := false }

inductive State where
  | checkServerExists
  | requestServer
  | result
  | error
  deriving DecidableEq, Repr

/-- The cloud request an action owns (`get_servers_action_`). -/
inductive GetServers where
  | none
  | running
  | ended
  deriving DecidableEq, Repr

structure RequestServerStreamGetAction where
  serverId : ServerId
  state : StateMachine State
  getServers : GetServers
  stream : Option Nat
  deriving DecidableEq, Repr

def RequestServerStreamGetAction.make (id : ServerId) : RequestServerStreamGetAction :=
  ⟨id, .set .checkServerExists, .none, none⟩

inductive StreamGetAction where
  | existing (stream : Option Nat)
  | request (r : RequestServerStreamGetAction)
  deriving DecidableEq, Repr

def StreamGetAction.stream : StreamGetAction → Option Nat
  | .existing s => s
  | .request r => r.stream

/-- The action can still come to a result: its resolution has not failed, nor was its
    cloud request stopped. -/
def StreamGetAction.canResult : StreamGetAction → Bool
  | .existing _ => true
  | .request r =>
    match r.state with
    | ⟨.error, _⟩ => false
    | ⟨.requestServer, false⟩ => r.getServers == .running
    | _ => true

inductive UpdateStatus where
  | none
  | result
  | error
  deriving DecidableEq, Repr

/-! ## The manager -/

structure Manager where
  servers : List Server
  registry : ServerId → Option Nat
  added : List (ServerId × Nat)
  cloud : List Nat
  streams : List ServerStream
  streamCache : ServerId → Option Nat
  actions : List (Option StreamGetAction)

/-- A gateway whose aether knows the servers `known` already. -/
def Manager.init (known : List Server) : Manager where
  servers := known
  registry := fun id => known.findIdx? (·.serverId = id)
  added := []
  cloud := []
  streams := []
  streamCache := fun _ => none
  actions := []

namespace Manager

variable (m : Manager)

/-- The pending action, none when it was never made or has ended. -/
def action? (a : Nat) : Option StreamGetAction := m.actions[a]?.join

def setAction (a : Nat) (act : StreamGetAction) : Manager := { m with actions := m.actions.set a (some act) }

/-- The action reported its result or its error: the registry lets it go. -/
def endAction (a : Nat) : Manager := { m with actions := m.actions.set a none }

def pushAction (act : StreamGetAction) : Manager × Nat :=
  ({ m with actions := m.actions ++ [some act] }, m.actions.length)

def heldByAction (s : Nat) : Bool := m.actions.any fun o => o.bind StreamGetAction.stream == some s

def linkState (s : Nat) : LinkState := (m.streams[s]?).elim .unlinked (·.linkState)

def madeFor (s : Nat) : Option ServeKind := (m.streams[s]?).map (·.madeFor)

def setLinkState (s : Nat) (st : LinkState) : Manager :=
  { m with streams := m.streams.modify s fun x => { x with linkState := st } }

/-- `CreateObj<Server>`, `gateway_cloud().AddServer` and, for a nonzero id, `aether->AddServer`. -/
def createServer (id : ServerId) (endpoints : ServerEndpoints) : Manager × Nat :=
  ({ m with
      servers := m.servers ++ [⟨id, endpoints.endpoints⟩]
      cloud := m.cloud ++ [m.servers.length]
      registry := if id ≠ 0 then fun i => if i = id then some m.servers.length else m.registry i else m.registry
      added := if id ≠ 0 then m.added ++ [(id, m.servers.length)] else m.added },
    m.servers.length)

def buildServer (id : ServerId) (endpoints : ServerEndpoints) : Manager × Nat :=
  if id ≠ 0 then
    match m.registry id with
    | some cached => (m, cached)
    | none => m.createServer id endpoints
  else m.createServer id endpoints

def makeStream (server : Nat) (madeFor : ServeKind) : Manager × Nat :=
  ({ m with streams := m.streams ++ [⟨server, .unlinked, madeFor⟩] }, m.streams.length)

/-- `std::map::insert`: an entry that is there stays. -/
def cacheStream (id : ServerId) (s : Nat) : Manager :=
  { m with streamCache := fun i => if i = id then (m.streamCache i).or (some s) else m.streamCache i }

def openCache (alive : Nat → Bool) : Manager :=
  { m with streamCache := fun i => (m.streamCache i).filter alive }

def getStream (alive : Nat → Bool) (id : ServerId) (cache : Bool) : Manager × Nat :=
  if cache then
    let m := m.openCache alive
    match m.streamCache id with
    | some s => m.pushAction (.existing (if alive s then some s else none))
    | none => m.pushAction (.request (.make id))
  else m.pushAction (.request (.make id))

/-- `GetStream(server_endpoints)`. -/
def getStreamTo (endpoints : ServerEndpoints) : Manager × Nat :=
  let (m, server) := m.buildServer 0 endpoints
  let (m, s) := m.makeStream server (.endpoints endpoints)
  m.pushAction (.existing (some s))

/-! ## `RequestServerStreamGetAction` -/

/-- `stream_` is made for `server`, cached under the requested id, and is the result. -/
def resolve (a : Nat) (r : RequestServerStreamGetAction) (server : Nat) : Manager :=
  let (m, s) := m.makeStream server (.id r.serverId)
  (m.cacheStream r.serverId s).setAction a (.request { r with stream := some s, state := .set .result })

def checkServerExists (a : Nat) (r : RequestServerStreamGetAction) : Manager :=
  match m.registry r.serverId with
  | some server => m.resolve a r server
  | none => m.setAction a (.request { r with state := .set .requestServer })

def requestServer (a : Nat) (r : RequestServerStreamGetAction) : Manager :=
  m.setAction a (.request { r with getServers := .running })

def updateRequest (a : Nat) (r : RequestServerStreamGetAction) : Manager × UpdateStatus :=
  if r.state.changed then
    let r' := { r with state := r.state.acquire }
    match r.state.value with
    | .checkServerExists => (m.checkServerExists a r', .none)
    | .requestServer => (m.requestServer a r', .none)
    | .result => (m.setAction a (.request r'), .result)
    | .error => (m.setAction a (.request r'), .error)
  else (m, .none)

def update (a : Nat) : StreamGetAction → Manager × UpdateStatus
  | .existing _ => (m, .result)
  | .request r => m.updateRequest a r

/-- `Update` as the action registry runs it: an action that reports its result or its
    error is let go. -/
def runAction (a : Nat) (act : StreamGetAction) : Manager × UpdateStatus :=
  match m.update a act with
  | (m, .none) => (m, .none)
  | (m, st) => (m.endAction a, st)

def endpointsOf (sd : ServerDescriptor) : ServerEndpoints :=
  ⟨sd.ips.flatMap fun ipp => ipp.protocolAndPorts.map fun pp => ⟨ipp.ip, pp.port, pp.protocol⟩⟩

def requesting (a : Nat) : Option RequestServerStreamGetAction :=
  match m.action? a with
  | some (.request r) => if r.getServers = .running then some r else none
  | _ => none

/-- The cloud answers `a`'s request. None for an empty answer, which the code asserts
    never comes. -/
def onServers (a : Nat) : List ServerDescriptor → Option Manager
  | [] => none
  | sd :: _ => (m.requesting a).map fun r =>
    let (m, server) := m.buildServer sd.serverId (endpointsOf sd)
    m.resolve a { r with getServers := .ended } server

def onServersError (a : Nat) : Option Manager :=
  (m.requesting a).map fun r => m.setAction a (.request { r with getServers := .ended, state := .set .error })

/-- The cloud request is stopped: nothing subscribes to that. -/
def onServersStop (a : Nat) : Option Manager :=
  (m.requesting a).map fun r => m.setAction a (.request { r with getServers := .ended })

end Manager

end AetherGateway.Streams
