/-
  AetherGateway.Sim.Transports — how a client of the simulator comes by its device: the
  adapter and its access point (gw-sim-adapter.cpp, gw-sim-access-point.cpp), the channels
  that it generates, and the actions that build their transports (gw-sim-channel.cpp),
  over the network of `AetherGateway.Sim.Network`.

  An adapter makes its one access point, so the two are one here. Only an access point
  constructs a `GwSimDevice`, when `gw_device()` is first asked for it, and the device goes
  with its access point. A build action joins first, by an action of its own that is always
  done, and creates the transport then. It points to its access point: this stays while
  the action is pending, and the servers stay. An assertion of the bus that fails ends the
  program in the middle of a step.

  A `GatewayTransport` (aether) is what it is constructed with. `owners` is history: the
  access point of each device.

  Proved:
  - `step_stepped`: what a step does, by event.
-/

import AetherGateway.Sim.Network

namespace AetherGateway.Sim.Transports

open AetherGateway.Runs AetherGateway.Streams AetherGateway.Port

/-! ## The build actions -/

inductive State where
  | join
  | createTransport
  | result
  | error
  deriving DecidableEq, Repr

/-- The server it writes to and the device it writes through. -/
structure GatewayTransport where
  server : ServeKind
  device : Device
  deriving DecidableEq, Repr

structure GwSimTransportBuildAction where
  accessPoint : Nat
  server : Server
  state : StateMachine State
  transportStream : Option GatewayTransport
  /-- What `Update` has reported; aether lets the action go then. -/
  reported : UpdateStatus
  deriving DecidableEq, Repr

def GwSimTransportBuildAction.make (accessPoint : Nat) (server : Server) : GwSimTransportBuildAction :=
  ⟨accessPoint, server, .set .join, none, .none⟩

/-- `GwSimAccessPoint::JoinAction::Update`. -/
def joinUpdate : UpdateStatus := .result

/-- What `Join` subscribes to the status of its action. -/
def GwSimTransportBuildAction.onJoin (b : GwSimTransportBuildAction) : UpdateStatus → GwSimTransportBuildAction
  | .result => { b with state := .set .createTransport }
  | .error => { b with state := .set .error }
  | .none => b

/-- The constructor of `GatewayTransport` that is called for the server. -/
def serveKind (server : Server) : ServeKind :=
  if server.serverId = 0 then .endpoints ⟨server.endpoints⟩ else .id server.serverId

def GwSimTransportBuildAction.onDevice (b : GwSimTransportBuildAction) (device : Device) : GwSimTransportBuildAction :=
  { b with transportStream := some ⟨serveKind b.server, device⟩, state := .set .result }

/-! ## The simulator -/

structure GwSimAccessPoint where
  gwDevice : Option Device
  deriving DecidableEq, Repr

structure GwSimChannel where
  accessPoint : Nat
  server : Server
  deriving DecidableEq, Repr

structure Simulator where
  net : Net
  /-- By the order of construction, none when destroyed. -/
  accessPoints : List (Option GwSimAccessPoint)
  channels : List GwSimChannel
  /-- The `JoinAction`s pending, each by the build action that asked for it. -/
  joins : List Nat
  builders : List GwSimTransportBuildAction
  owners : List Nat

def construct (known : List (List Server)) : Simulator := ⟨Net.construct known, [], [], [], [], []⟩

namespace Simulator

def accessPoint? (s : Simulator) (k : Nat) : Option GwSimAccessPoint := s.accessPoints[k]?.join

def builder? (s : Simulator) (a : Nat) : Option GwSimTransportBuildAction :=
  s.builders[a]?.filter (·.reported == .none)

def setBuilder (s : Simulator) (a : Nat) (b : GwSimTransportBuildAction) : Simulator :=
  { s with builders := s.builders.set a b }

def adapter (s : Simulator) : Simulator := { s with accessPoints := s.accessPoints ++ [some ⟨none⟩] }

def generateChannels (s : Simulator) (accessPoint : Nat) (server : Server) : Simulator :=
  { s with channels := s.channels ++ [⟨accessPoint, server⟩] }

def transportBuilder (s : Simulator) (c : GwSimChannel) : Simulator :=
  { s with builders := s.builders ++ [.make c.accessPoint c.server] }

/-- The join of action `a` is over. -/
def updateJoin (s : Simulator) (a : Nat) : Simulator :=
  { s with joins := s.joins.erase a, builders := s.builders.modify a (·.onJoin joinUpdate) }

def inUse (s : Simulator) (accessPoint : Nat) : Bool :=
  s.builders.any fun b => b.accessPoint == accessPoint && b.reported == .none

section
variable (hash : ServerEndpoints → UInt64) (pc : ProtocolContext) (ndebug : Bool)

def ended (s : Simulator) : Bool := s.net.bus.overflowed && !ndebug

/-- `GwSimAccessPoint::gw_device`: no device when the assertion of the bus ends the program. -/
def gwDevice (s : Simulator) (k : Nat) (ap : GwSimAccessPoint) : Option (Simulator × Option Device) :=
  match ap.gwDevice with
  | some device => some (s, some device)
  | none => (Net.step hash pc ndebug s.net (.bus .create)).map fun net =>
    if ended ndebug { s with net := net } then ({ s with net := net }, none)
    else
      ({ s with
        net := net
        accessPoints := s.accessPoints.set k (some ⟨some s.net.bus.created⟩)
        owners := s.owners ++ [k] }, some s.net.bus.created)

def createTransport (s : Simulator) (a : Nat) (b : GwSimTransportBuildAction) : Option Simulator := do
  let ap ← s.accessPoint? b.accessPoint
  match ← s.gwDevice hash pc ndebug b.accessPoint ap with
  | (s, some device) => some (s.setBuilder a (b.onDevice device))
  | (s, none) => some s

/-- `GwSimTransportBuildAction::Update` of the pending action `a`. -/
def update (s : Simulator) (a : Nat) (b : GwSimTransportBuildAction) : Option Simulator :=
  if b.state.changed then
    let b := { b with state := b.state.acquire }
    match b.state.value with
    | .join => some { s.setBuilder a b with joins := s.joins ++ [a] }
    | .createTransport => s.createTransport hash pc ndebug a b
    | .result => some (s.setBuilder a { b with reported := .result })
    | .error => some (s.setBuilder a { b with reported := .error })
  else some s

/-- `GwSimAccessPoint::~GwSimAccessPoint`. -/
def release (s : Simulator) (k : Nat) (ap : GwSimAccessPoint) : Option Simulator :=
  if s.inUse k then none
  else match ap.gwDevice with
    | none => some { s with accessPoints := s.accessPoints.set k none }
    | some device => (Net.step hash pc ndebug s.net (.bus (.destroy device))).map fun net =>
      { s with net := net, accessPoints := s.accessPoints.set k none }

end

end Simulator

open Simulator

inductive Ev where
  | adapter
  | release (accessPoint : Nat)
  | generateChannels (accessPoint : Nat) (server : Server)
  | transportBuilder (channel : Nat)
  | join (action : Nat)
  | update (action : Nat)
  | net (e : Net.Ev)
  deriving Repr

/-- The network makes a move; its devices are the access points'. -/
def netStep (hash : ServerEndpoints → UInt64) (pc : ProtocolContext) (ndebug : Bool) (s : Simulator) :
    Net.Ev → Option Simulator
  | .bus _ => none
  | e => (Net.step hash pc ndebug s.net e).map fun net => { s with net := net }

def step (hash : ServerEndpoints → UInt64) (pc : ProtocolContext) (ndebug : Bool) (s : Simulator) (ev : Ev) :
    Option Simulator :=
  if s.ended ndebug then none
  else match ev with
    | .adapter => some s.adapter
    | .release k => (s.accessPoint? k).bind (s.release hash pc ndebug k)
    | .generateChannels k server => (s.accessPoint? k).map fun _ => s.generateChannels k server
    | .transportBuilder c => s.channels[c]?.bind fun ch =>
      (s.accessPoint? ch.accessPoint).map fun _ => s.transportBuilder ch
    | .join a => if a ∈ s.joins then some (s.updateJoin a) else none
    | .update a => (s.builder? a).bind (s.update hash pc ndebug a)
    | .net e => netStep hash pc ndebug s e

variable {hash : ServerEndpoints → UInt64} {pc : ProtocolContext} {ndebug : Bool} {s t : Simulator} {ev : Ev}
variable {a k : Nat} {b : GwSimTransportBuildAction}

/-! ## What a step does -/

theorem builder?_some : s.builder? a = some b ↔ s.builders[a]? = some b ∧ b.reported = .none := by
  unfold builder?
  rw [Option.filter_eq_some_iff, beq_iff_eq]

theorem inUse_builder (hb : b ∈ s.builders) (hr : b.reported = .none) : s.inUse b.accessPoint = true := by
  unfold inUse
  exact List.any_eq_true.mpr ⟨b, hb, by simp [hr]⟩

inductive Stepped (hash : ServerEndpoints → UInt64) (pc : ProtocolContext) (ndebug : Bool) (s : Simulator) :
    Ev → Simulator → Prop where
  | adapter : Stepped hash pc ndebug s .adapter s.adapter
  | released {k : Nat} {ap : GwSimAccessPoint} (hk : s.accessPoint? k = some ap) (hu : s.inUse k = false)
      (hd : ap.gwDevice = none) :
      Stepped hash pc ndebug s (.release k) { s with accessPoints := s.accessPoints.set k none }
  | destroyed {k : Nat} {ap : GwSimAccessPoint} {device : Device} {net : Net} (hk : s.accessPoint? k = some ap)
      (hu : s.inUse k = false) (hd : ap.gwDevice = some device)
      (hn : Net.step hash pc ndebug s.net (.bus (.destroy device)) = some net) :
      Stepped hash pc ndebug s (.release k) { s with net := net, accessPoints := s.accessPoints.set k none }
  | channels {k : Nat} (server : Server) :
      Stepped hash pc ndebug s (.generateChannels k server) (s.generateChannels k server)
  | builder {c : Nat} {ch : GwSimChannel} {ap : GwSimAccessPoint} (hk : s.accessPoint? ch.accessPoint = some ap) :
      Stepped hash pc ndebug s (.transportBuilder c) (s.transportBuilder ch)
  | joined {a : Nat} (ha : a ∈ s.joins) : Stepped hash pc ndebug s (.join a) (s.updateJoin a)
  | still {a : Nat} {b : GwSimTransportBuildAction} (hb : s.builder? a = some b) (hst : b.state.changed = false) :
      Stepped hash pc ndebug s (.update a) s
  | joins {a : Nat} {b : GwSimTransportBuildAction} (hb : s.builder? a = some b) (hst : b.state = .set .join) :
      Stepped hash pc ndebug s (.update a)
        { s.setBuilder a { b with state := ⟨.join, false⟩ } with joins := s.joins ++ [a] }
  | creates {a : Nat} {b : GwSimTransportBuildAction} {ap : GwSimAccessPoint} {device : Device}
      (hb : s.builder? a = some b) (hst : b.state = .set .createTransport)
      (hk : s.accessPoint? b.accessPoint = some ap) (hd : ap.gwDevice = some device) :
      Stepped hash pc ndebug s (.update a) (s.setBuilder a (b.onDevice device))
  | constructs {a : Nat} {b : GwSimTransportBuildAction} {ap : GwSimAccessPoint} {net : Net}
      (hb : s.builder? a = some b) (hst : b.state = .set .createTransport)
      (hk : s.accessPoint? b.accessPoint = some ap) (hd : ap.gwDevice = none)
      (hn : Net.step hash pc ndebug s.net (.bus .create) = some net) (hrun : (net.bus.overflowed && !ndebug) = false) :
      Stepped hash pc ndebug s (.update a) { s with
        net := net
        accessPoints := s.accessPoints.set b.accessPoint (some ⟨some s.net.bus.created⟩)
        owners := s.owners ++ [b.accessPoint]
        builders := s.builders.set a (b.onDevice s.net.bus.created) }
  | ends {a : Nat} {b : GwSimTransportBuildAction} {ap : GwSimAccessPoint} {net : Net}
      (hb : s.builder? a = some b) (hst : b.state = .set .createTransport)
      (hk : s.accessPoint? b.accessPoint = some ap) (hd : ap.gwDevice = none)
      (hn : Net.step hash pc ndebug s.net (.bus .create) = some net) (hend : (net.bus.overflowed && !ndebug) = true) :
      Stepped hash pc ndebug s (.update a) { s with net := net }
  | reports {a : Nat} {b : GwSimTransportBuildAction} (hb : s.builder? a = some b) (hst : b.state = .set .result) :
      Stepped hash pc ndebug s (.update a) (s.setBuilder a { b with state := ⟨.result, false⟩, reported := .result })
  | fails {a : Nat} {b : GwSimTransportBuildAction} (hb : s.builder? a = some b) (hst : b.state = .set .error) :
      Stepped hash pc ndebug s (.update a) (s.setBuilder a { b with state := ⟨.error, false⟩, reported := .error })
  | net {e : Net.Ev} {net : Net} (hn : Net.step hash pc ndebug s.net e = some net) (he : ∀ x, e ≠ .bus x) :
      Stepped hash pc ndebug s (.net e) { s with net := net }

theorem createTransport_stepped (hb : s.builder? a = some b) (hst : b.state = .set .createTransport)
    (h : s.createTransport hash pc ndebug a b = some t) : Stepped hash pc ndebug s (.update a) t := by
  unfold createTransport at h
  obtain ⟨ap, hk, h⟩ := Option.bind_eq_some_iff.mp h
  obtain ⟨⟨u, o⟩, hg, h⟩ := Option.bind_eq_some_iff.mp h
  unfold gwDevice at hg
  split at hg
  · next device hd =>
    cases hg
    cases h
    exact .creates hb hst hk hd
  · next hd =>
    obtain ⟨net, hn, hg⟩ := Option.map_eq_some_iff.mp hg
    split at hg
    · next hend =>
      cases hg
      cases h
      exact .ends hb hst hk hd hn hend
    · next hrun =>
      cases hg
      cases h
      exact .constructs hb hst hk hd hn (by simpa [ended] using hrun)

theorem update_stepped (hb : s.builder? a = some b) (h : s.update hash pc ndebug a b = some t) :
    Stepped hash pc ndebug s (.update a) t := by
  obtain ⟨accessPoint, server, ⟨v, c⟩, tr, reported⟩ := b
  cases c with
  | false =>
    cases h
    exact .still hb rfl
  | true =>
    cases v with
    | join =>
      cases h
      exact .joins hb rfl
    | createTransport => exact createTransport_stepped hb rfl h
    | result =>
      cases h
      exact .reports (b := ⟨accessPoint, server, ⟨.result, true⟩, tr, reported⟩) hb rfl
    | error =>
      cases h
      exact .fails (b := ⟨accessPoint, server, ⟨.error, true⟩, tr, reported⟩) hb rfl

theorem step_stepped (h : step hash pc ndebug s ev = some t) :
    Stepped hash pc ndebug s ev t ∧ s.ended ndebug = false := by
  unfold step at h
  split at h
  · cases h
  next hrun =>
  refine ⟨?_, by simpa using hrun⟩
  cases ev with
  | adapter =>
    cases h
    exact .adapter
  | release k =>
    obtain ⟨ap, hk, h⟩ := Option.bind_eq_some_iff.mp h
    unfold release at h
    split at h
    · cases h
    next hu =>
    have hu : s.inUse k = false := by simpa using hu
    split at h
    · next hd =>
      cases h
      exact .released hk hu hd
    · next device hd =>
      obtain ⟨net, hn, rfl⟩ := Option.map_eq_some_iff.mp h
      exact .destroyed hk hu hd hn
  | generateChannels k server =>
    obtain ⟨ap, -, rfl⟩ := Option.map_eq_some_iff.mp h
    exact .channels server
  | transportBuilder c =>
    obtain ⟨ch, -, h⟩ := Option.bind_eq_some_iff.mp h
    obtain ⟨ap, hk, rfl⟩ := Option.map_eq_some_iff.mp h
    exact .builder hk
  | join a =>
    simp only at h
    split at h
    · next ha =>
      cases h
      exact .joined ha
    · cases h
  | update a =>
    obtain ⟨b, hb, h⟩ := Option.bind_eq_some_iff.mp h
    exact update_stepped hb h
  | net e =>
    cases e with
    | bus => cases h
    | attach | detach | toServer | port =>
      obtain ⟨net, hn, rfl⟩ := Option.map_eq_some_iff.mp h
      exact .net hn (by intro x hx; cases hx)

end AetherGateway.Sim.Transports
