/-
  AetherGateway.Port.LocalPort — `LocalPort` and `GwStream` (libs/gateway/local_port.cpp,
  gw_stream.cpp) over the stream manager: what a gateway does with the packets of its
  devices and of its servers.

  Actors. A device's packet holds calls (`toServerId`, `toServer`) decoded in order; each
  opens the stream of its (device, client, server) or finds it in `streamStore`, and
  writes its data to it. A `GwStream` is named by the order of construction. It
  subscribes to its stream-get action; on the result it takes the server stream and ties
  its buffer to it; it has no handler for an error. `LocalPort` subscribes to the data and
  to the updates of each stream it makes, by key, and never unsubscribes: a subscription
  ends with the stream it is for.

  The environment's moves: the registry runs a pending action (`update`); the cloud
  answers, fails or stops a request; a server stream enters a link state and its tied
  streams report it at once (`link`); a stream reports an update of its own
  (`streamUpdate`); a tied buffer hands its first data to the server stream (`forward`);
  a server stream receives a packet (`packet`). A buffer holds what it is given, in
  order, until it hands it on; a stream in `linkError` stays there.

  `hash` is `std::hash<ServerEndpoints>`. `lastUsed` is written and never read: left out.
  `made`, `writes`, `handed`, `arrived`, `output`, `reported` and the `server` of a
  `GwStream` are history.
-/

import Mathlib.Data.List.AList
import AetherGateway.Streams.ManagerProofs

namespace AetherGateway.Port

open AetherGateway.Streams

abbrev ClientId := Nat
abbrev DataBuffer := List UInt8

/-- A client of a device and a server it addresses. -/
structure Flow where
  deviceId : UInt8
  clientId : ClientId
  server : ServeKind
  deriving DecidableEq, Repr

structure Key where
  deviceId : UInt8
  clientId : ClientId
  serverIdentity : UInt32
  deriving DecidableEq, Repr

/-- `operator<` of the keys, the order of `stream_store_`. -/
def Key.lt (a b : Key) : Bool :=
  a.deviceId < b.deviceId || (a.deviceId == b.deviceId &&
    (a.clientId < b.clientId || (a.clientId == b.clientId && a.serverIdentity < b.serverIdentity)))

/-- A call of the gateway's API, as decoded from a device's packet. -/
inductive Call where
  | toServerId (clientId : ClientId) (serverId : ServerId) (data : DataBuffer)
  | toServer (clientId : ClientId) (serverEndpoints : ServerEndpoints) (data : DataBuffer)
  deriving DecidableEq, Repr

def Call.clientId : Call → ClientId
  | .toServerId c _ _ => c
  | .toServer c _ _ => c

def Call.server : Call → ServeKind
  | .toServerId _ i _ => .id i
  | .toServer _ e _ => .endpoints e

def Call.data : Call → DataBuffer
  | .toServerId _ _ d => d
  | .toServer _ _ d => d

def Call.flow (deviceId : UInt8) (c : Call) : Flow := ⟨deviceId, c.clientId, c.server⟩

structure GwStream where
  id : Nat
  server : ServeKind
  getServerStreamSub : Nat
  serverStream : Option Nat
  buffer : List DataBuffer
  deriving DecidableEq, Repr

structure StreamStore where
  server : ServeKind
  stream : GwStream
  deriving DecidableEq, Repr

/-- A call `from_server(client_id, data)` of the client's API. -/
structure FromServer where
  clientId : ClientId
  data : DataBuffer
  deriving DecidableEq, Repr

structure Output where
  deviceId : UInt8
  call : FromServer
  deriving DecidableEq, Repr

/-- A call's data went to `GwStream` `stream`. -/
structure Write where
  flow : Flow
  stream : Nat
  data : DataBuffer
  deriving DecidableEq, Repr

/-- `GwStream` `stream` handed data to a server stream. -/
structure Handed where
  stream : Nat
  serverStream : Nat
  data : DataBuffer
  deriving DecidableEq, Repr

structure St where
  mgr : Manager
  streamStore : AList fun _ : Key => StreamStore
  outDataSubs : List (Nat × Key)
  updateStreamSubs : List (Nat × Key)
  /-- Which server stream feeds which `GwStream`, in the order of the ties. -/
  ties : List (Nat × Nat)
  made : List Flow
  writes : List Write
  handed : List Handed
  arrived : List (Nat × DataBuffer)
  /-- The emissions, each with the server stream whose packet caused it. -/
  output : List (Nat × Output)
  /-- The keys whose stream reported a link error. -/
  reported : List Key

def init (known : List Server) : St := ⟨.init known, ∅, [], [], [], [], [], [], [], [], []⟩

/-! ## `GwStream` -/

def heldByEntry (s : St) (x : Nat) : Bool := s.streamStore.entries.any fun p => p.2.stream.serverStream == some x

def alive (s : St) (x : Nat) : Bool := s.mgr.heldByAction x || heldByEntry s x

/-- `GwStream` `g` is in the store; nothing else owns one. -/
def gwAlive (s : St) (g : Nat) : Bool := s.streamStore.entries.any fun p => p.2.stream.id == g

/-- `GwStream::GwStream`: ask the manager for the stream, with the cache. -/
def gwStream (s : St) (server : ServeKind) : Manager × GwStream :=
  let (mgr, a) := match server with
    | .id i => s.mgr.getStream (alive s) i true
    | .endpoints e => s.mgr.getStreamTo e
  (mgr, ⟨s.made.length, server, a, none, []⟩)

/-- `stream_info().link_state`: the tied server stream's. -/
def gwLinkState (s : St) (g : GwStream) : LinkState := g.serverStream.elim .unlinked s.mgr.linkState

/-! ## `LocalPort` -/

section
variable (hash : ServerEndpoints → UInt64)

/-- `Key::server_identity`: both kinds of address in 32 bits. -/
def identity : ServeKind → UInt32
  | .id i => i
  | .endpoints e => (hash e).toUInt32

def Flow.key (f : Flow) : Key := ⟨f.deviceId, f.clientId, identity hash f.server⟩

def openStream (s : St) (f : Flow) : St :=
  match s.streamStore.lookup (f.key hash) with
  | some _ => s
  | none =>
    let (mgr, stream) := gwStream s f.server
    { s with
      mgr := mgr
      streamStore := s.streamStore.insert (f.key hash) ⟨f.server, stream⟩
      outDataSubs := s.outDataSubs ++ [(stream.id, f.key hash)]
      updateStreamSubs := s.updateStreamSubs ++ [(stream.id, f.key hash)]
      made := s.made ++ [⟨f.deviceId, f.clientId, stream.server⟩] }

/-- `GwStream::Write` on the stream stored under the key. -/
def write (s : St) (f : Flow) (data : DataBuffer) : St :=
  match s.streamStore.lookup (f.key hash) with
  | some e =>
    { s with
      streamStore := s.streamStore.insert (f.key hash)
        { e with stream := { e.stream with buffer := e.stream.buffer ++ [data] } }
      writes := s.writes ++ [⟨f, e.stream.id, data⟩] }
  | none => s

/-- `GatewayApiImpl::ToServerId` and `ToServer`. -/
def api (deviceId : UInt8) (s : St) (c : Call) : St :=
  write hash (openStream hash s (c.flow deviceId)) (c.flow deviceId) c.data

/-- `LocalPort::Input`: the calls of one packet, in order. -/
def input (deviceId : UInt8) (s : St) (calls : List Call) : St := calls.foldl (api hash deviceId) s

end

def outData (s : St) (key : Key) (data : DataBuffer) : List Output :=
  match s.streamStore.lookup key with
  | none => []
  | some _ => [⟨key.deviceId, key.clientId, data⟩]

def streamState (s : St) (key : Key) : St :=
  match s.streamStore.lookup key with
  | none => s
  | some e =>
    if gwLinkState s e.stream = .linkError then
      { s with streamStore := s.streamStore.erase key, reported := s.reported ++ [key] }
    else s

/-! ## Events of the streams -/

def emitUpdate (s : St) (g : Nat) : St :=
  if gwAlive s g then (s.updateStreamSubs.filter (·.1 == g)).foldl (fun s sub => streamState s sub.2) s else s

def tiedTo (s : St) (x : Nat) : List Nat := (s.ties.filter (·.1 == x)).map (·.2)

def linkUpdate (s : St) (x : Nat) (st : LinkState) : St :=
  (tiedTo s x).foldl emitUpdate { s with mgr := s.mgr.setLinkState x st }

/-- What data of `GwStream` `g` makes `output_event` emit. -/
def emitData (s : St) (g : Nat) (data : DataBuffer) : List Output :=
  if gwAlive s g then (s.outDataSubs.filter (·.1 == g)).flatMap fun sub => outData s sub.2 data else []

def packetOutput (s : St) (x : Nat) (data : DataBuffer) : List Output := (tiedTo s x).flatMap fun g => emitData s g data

def subscriber (s : St) (a : Nat) : Option (Key × StreamStore) :=
  (s.streamStore.entries.find? fun p => p.2.stream.getServerStreamSub == a).map fun p => (p.1, p.2)

/-- The result handler: take the server stream and tie the buffer to it. -/
def tie (s : St) (key : Key) (e : StreamStore) (x : Nat) : St :=
  { s with
    streamStore := s.streamStore.insert key { e with stream := { e.stream with serverStream := some x } }
    ties := s.ties ++ [(x, e.stream.id)] }

/-- A pending action's turn. None where the result handler would dereference null. -/
def update (s : St) (a : Nat) (act : StreamGetAction) : Option St :=
  match s.mgr.runAction a act with
  | (mgr, .result) =>
    match subscriber s a with
    | none => some { s with mgr := mgr }
    | some (key, e) => act.stream.map fun x => tie { s with mgr := mgr } key e x
  | (mgr, _) => some { s with mgr := mgr }

inductive Ev where
  | input (deviceId : UInt8) (calls : List Call)
  | update (a : Nat)
  | servers (a : Nat) (sds : List ServerDescriptor)
  | serversError (a : Nat)
  | serversStop (a : Nat)
  | link (x : Nat) (st : LinkState)
  | streamUpdate (key : Key)
  | forward (key : Key) (n : Nat)
  | packet (x : Nat) (data : DataBuffer)
  deriving Repr

def step (hash : ServerEndpoints → UInt64) (s : St) : Ev → Option St
  | .input deviceId calls => some (input hash deviceId s calls)
  | .update a => (s.mgr.action? a).bind (update s a)
  | .servers a sds => (s.mgr.onServers a sds).map fun mgr => { s with mgr := mgr }
  | .serversError a => (s.mgr.onServersError a).map fun mgr => { s with mgr := mgr }
  | .serversStop a => (s.mgr.onServersStop a).map fun mgr => { s with mgr := mgr }
  | .link x st =>
    if alive s x ∧ (s.mgr.linkState x = .linkError → st = .linkError) then some (linkUpdate s x st) else none
  | .streamUpdate key => (s.streamStore.lookup key).map fun e => emitUpdate s e.stream.id
  | .forward key n =>
    match s.streamStore.lookup key with
    | some e => e.stream.serverStream.map fun x =>
      { s with
        streamStore := s.streamStore.insert key
          { e with stream := { e.stream with buffer := e.stream.buffer.drop n } }
        handed := s.handed ++ (e.stream.buffer.take n).map fun d => ⟨e.stream.id, x, d⟩ }
    | none => none
  | .packet x data =>
    if alive s x then
      some { s with
        output := s.output ++ (packetOutput s x data).map (x, ·)
        arrived := s.arrived ++ [(x, data)] }
    else none

/-- Keys that neither precedes the other are one key: the map's keys are compared by
    equality here. -/
theorem Key.equiv_iff {a b : Key} : (a.lt b = false ∧ b.lt a = false) ↔ a = b := by
  obtain ⟨d, c, i⟩ := a
  obtain ⟨d', c', i'⟩ := b
  simp only [Key.lt, Bool.or_eq_false_iff, Bool.and_eq_false_imp, beq_iff_eq, decide_eq_false_iff_not,
    Key.mk.injEq]
  constructor
  · rintro ⟨⟨h1, h2⟩, h3, h4⟩
    have hd : d = d' := UInt8.le_antisymm (UInt8.not_lt.mp h3) (UInt8.not_lt.mp h1)
    have hc : c = c' := le_antisymm (not_lt.mp (h4 hd.symm).1) (not_lt.mp (h2 hd).1)
    exact ⟨hd, hc, UInt32.le_antisymm (UInt32.not_lt.mp ((h4 hd.symm).2 hc.symm)) (UInt32.not_lt.mp ((h2 hd).2 hc))⟩
  · rintro ⟨rfl, rfl, rfl⟩
    simp

end AetherGateway.Port
