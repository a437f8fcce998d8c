/-
  AetherGateway.Sim.Network — the simulator from end to end: devices, the bus with both
  its sides (gw-sim-device.cpp, gw-sim-data-bus.cpp), the gateways' device ports
  (gw-sim-device-port.cpp) and their local ports.

  A device's `ToServer` packs the call and publishes the packet to every gateway listener.
  A `GwSimDevicePort` is such a listener: it passes the packet on to the `Input` of its
  local port, and publishes what the local port emits to the device registered under the
  id of the emission, which parses it and tells its client. Device ports come and go, any
  number on one local port. An assertion of the bus that fails ends the program, unless it
  is compiled out (`ndebug`).

  `ProtocolContext` is aether's packing and parsing (`ApiContext`, `ApiParser`): both sides
  of the bus know the same calls. What a client does with a message is an event of its own,
  as are the moves of a local port's environment (`AetherGateway.Port.LocalPort`).

  `ToServer`'s write action, which is always done, is left out. `sent` and `received` are
  history: a call with the local ports it was passed on to, and a message with the local
  port and the server stream it came from.

  Proved:
  - `step_inv`: the gateway listeners are the device ports alive, in the order of their
    construction.
  - `localPort_run`: each local port goes through a run of its own machine, whose requests
    are the calls published to it, and writes exactly these.
-/

import AetherGateway.Codec
import AetherGateway.Port.Replies
import AetherGateway.Sim.DataBus
import AetherGateway.Simulation

namespace AetherGateway.Sim

open AetherGateway.Runs AetherGateway.Streams AetherGateway.Port

/-- What is packed is parsed as it was. -/
structure ProtocolContext where
  packCall : Call → DataBuffer
  parseCalls : DataBuffer → List Call
  packFromServer : FromServer → DataBuffer
  parseFromServer : DataBuffer → List FromServer
  calls : ∀ c, parseCalls (packCall c) = [c]
  fromServer : ∀ m, parseFromServer (packFromServer m) = [m]

/-! ## A protocol context -/

def bytesCodec : Codec DataBuffer := Codec.byte.list

def serverIdCodec : Codec ServerId := Codec.nat.map UInt32.toNat UInt32.ofNat fun _ => UInt32.ofNat_toNat

def endpointCodec : Codec Endpoint :=
  (Codec.nat.prod (Codec.nat.prod Codec.nat)).map (fun e => (e.ip, e.port.toNat, e.protocol))
    (fun p => ⟨p.1, UInt16.ofNat p.2.1, p.2.2⟩) fun e => by rw [UInt16.ofNat_toNat]

def endpointsCodec : Codec ServerEndpoints :=
  endpointCodec.list.map ServerEndpoints.endpoints ServerEndpoints.mk fun _ => rfl

def callCodec : Codec Call :=
  (Codec.sum 3 4 (by decide) (Codec.nat.prod (serverIdCodec.prod bytesCodec))
    (Codec.nat.prod (endpointsCodec.prod bytesCodec))).map
    (fun
      | .toServerId c i d => .inl (c, i, d)
      | .toServer c e d => .inr (c, e, d))
    (fun
      | .inl p => .toServerId p.1 p.2.1 p.2.2
      | .inr p => .toServer p.1 p.2.1 p.2.2)
    fun c => by cases c <;> rfl

def fromServerCodec : Codec FromServer :=
  (Codec.nat.prod bytesCodec).map (fun m => (m.clientId, m.data)) (fun p => ⟨p.1, p.2⟩) fun _ => rfl

def ProtocolContext.plain : ProtocolContext where
  packCall := callCodec.put
  parseCalls := callCodec.getAll
  packFromServer := fromServerCodec.put
  parseFromServer := fromServerCodec.getAll
  calls := callCodec.getAll_put
  fromServer := fromServerCodec.getAll_put

/-! ## The simulator -/

/-- A `GwSimDevicePort`, named by the order of construction. -/
structure DevicePort where
  number : Nat
  localPort : Nat
  deriving DecidableEq, Repr

structure Sent where
  device : Device
  deviceId : DeviceId
  call : Call
  localPorts : List Nat
  deriving DecidableEq, Repr

structure Received where
  device : Device
  message : FromServer
  localPort : Nat
  serverStream : Nat
  deriving DecidableEq, Repr

structure Net where
  bus : Sim.St
  gatewayListeners : List DevicePort
  /-- The device ports alive: `output_sub_` of each, in the order of the subscriptions. -/
  devicePorts : List DevicePort
  constructed : Nat
  localPorts : List Port.St
  sent : List Sent
  received : List Received

namespace Net

/-! ## The gateways' side of the bus -/

def regGatewayListener (n : Net) (p : DevicePort) : Net := { n with gatewayListeners := n.gatewayListeners ++ [p] }

def removeGatewayListener (n : Net) (p : DevicePort) : Net := { n with gatewayListeners := n.gatewayListeners.erase p }

/-- `GwSimDevicePort::GwSimDevicePort`. -/
def attach (n : Net) (localPort : Nat) : Net :=
  let p := ⟨n.constructed, localPort⟩
  { n.regGatewayListener p with devicePorts := n.devicePorts ++ [p], constructed := n.constructed + 1 }

/-- `GwSimDevicePort::~GwSimDevicePort`. -/
def detach (n : Net) (p : DevicePort) : Net :=
  { n.removeGatewayListener p with devicePorts := n.devicePorts.filter (·.number != p.number) }

section
variable (hash : ServerEndpoints → UInt64) (pc : ProtocolContext)

def pushData (deviceId : DeviceId) (data : DataBuffer) (n : Net) (p : DevicePort) : Net :=
  { n with localPorts := n.localPorts.modify p.localPort fun s => input hash deviceId s (pc.parseCalls data) }

def publishDeviceData (n : Net) (fromDevice : DeviceId) (data : DataBuffer) : Net :=
  n.gatewayListeners.foldl (pushData hash pc fromDevice data) n

def toServer (n : Net) (device : Device × DeviceId) (c : Call) : Net :=
  { n.publishDeviceData hash pc device.2 (pc.packCall c) with
    sent := n.sent ++ [⟨device.1, device.2, c, n.gatewayListeners.map (·.localPort)⟩] }

/-- `GwSimDevice::PushData`: what the device's `from_server_event` says. -/
def devicePushData (data : DataBuffer) : List FromServer := pc.parseFromServer data

def emitted (s : Port.St) : Port.Ev → List (Nat × Output)
  | .packet x data => (packetOutput s x data).map (x, ·)
  | _ => []

/-- The handler of `output_event`: the messages that come of an emission. -/
def onOutput (n : Net) (localPort : Nat) (o : Nat × Output) : List Received :=
  (n.bus.bus.publishGwData o.2.deviceId (pc.packFromServer o.2.call)).flatMap fun d =>
    (devicePushData pc d.2).map fun m => ⟨d.1, m, localPort, o.1⟩

def subscribers (n : Net) (localPort : Nat) : List DevicePort := n.devicePorts.filter (·.localPort == localPort)

def output (n : Net) (localPort : Nat) (os : List (Nat × Output)) : List Received :=
  os.flatMap fun o => (n.subscribers localPort).flatMap fun _ => n.onOutput pc localPort o

/-! ## Steps -/

inductive Ev where
  | bus (e : Sim.Ev)
  | attach (localPort : Nat)
  | detach (number : Nat)
  | toServer (device : Device) (c : Call)
  | port (localPort : Nat) (e : Port.Ev)
  deriving Repr

/-- The gateways' aether, each with the servers it knows already. -/
def construct (known : List (List Server)) : Net := ⟨Sim.construct, [], [], 0, known.map Port.init, [], []⟩

/-- A local port's environment makes a move; its input comes over the bus only. -/
def portStep (n : Net) (localPort : Nat) : Port.Ev → Option Net
  | .input _ _ => none
  | e => n.localPorts[localPort]?.bind fun s => (Port.step hash s e).map fun t =>
    { n with
      localPorts := n.localPorts.set localPort t
      received := n.received ++ n.output pc localPort (emitted s e) }

def step (ndebug : Bool) (n : Net) (ev : Ev) : Option Net :=
  if n.bus.overflowed && !ndebug then none
  else match ev with
    | .bus e => (Sim.step ndebug n.bus e).map fun bus => { n with bus := bus }
    | .attach localPort => if localPort < n.localPorts.length then some (n.attach localPort) else none
    | .detach number => (n.devicePorts.find? (·.number == number)).map n.detach
    | .toServer device c => (n.bus.alive.find? (·.1 == device)).map (n.toServer hash pc · c)
    | .port localPort e => n.portStep hash pc localPort e

end

variable {hash : ServerEndpoints → UInt64} {pc : ProtocolContext} {ndebug : Bool} {n t : Net} {ev : Ev} {g : Nat}

inductive Stepped (hash : ServerEndpoints → UInt64) (pc : ProtocolContext) (ndebug : Bool) (n : Net) : Ev → Net → Prop where
  | bus {e : Sim.Ev} {bus : Sim.St} (h : Sim.step ndebug n.bus e = some bus) :
      Stepped hash pc ndebug n (.bus e) { n with bus := bus }
  | attach {g : Nat} (h : g < n.localPorts.length) : Stepped hash pc ndebug n (.attach g) (n.attach g)
  | detach {p : DevicePort} (h : p ∈ n.devicePorts) : Stepped hash pc ndebug n (.detach p.number) (n.detach p)
  | toServer {p : Device × DeviceId} (c : Call) (hf : n.bus.alive.find? (·.1 == p.1) = some p) :
      Stepped hash pc ndebug n (.toServer p.1 c) (n.toServer hash pc p c)
  | port {g : Nat} {e : Port.Ev} {s u : Port.St} (hs : n.localPorts[g]? = some s) (hr : requests e = [])
      (h : Port.step hash s e = some u) :
      Stepped hash pc ndebug n (.port g e) { n with
        localPorts := n.localPorts.set g u
        received := n.received ++ n.output pc g (emitted s e) }

theorem portStep_stepped {e : Port.Ev} (h : n.portStep hash pc g e = some t) :
    Stepped hash pc ndebug n (.port g e) t := by
  cases e with
  | input => cases h
  | update | servers | serversError | serversStop | link | streamUpdate | forward | packet =>
    obtain ⟨s, hs, h⟩ := Option.bind_eq_some_iff.mp h
    obtain ⟨u, hu, rfl⟩ := Option.map_eq_some_iff.mp h
    exact .port hs rfl hu

theorem step_stepped (h : step hash pc ndebug n ev = some t) :
    Stepped hash pc ndebug n ev t ∧ (n.bus.overflowed && !ndebug) = false := by
  unfold step at h
  split at h
  · cases h
  · next hrun =>
    refine ⟨?_, by simpa using hrun⟩
    cases ev with
    | bus e =>
      obtain ⟨bus, hb, rfl⟩ := Option.map_eq_some_iff.mp h
      exact .bus hb
    | attach g =>
      simp only at h
      split at h
      · cases h
        exact .attach ‹_›
      · cases h
    | detach number =>
      obtain ⟨p, hp, rfl⟩ := Option.map_eq_some_iff.mp h
      have he := List.find?_some hp
      rw [beq_iff_eq] at he
      subst he
      exact .detach (List.mem_of_find?_eq_some hp)
    | toServer device c =>
      obtain ⟨p, hp, rfl⟩ := Option.map_eq_some_iff.mp h
      have he := List.find?_some hp
      rw [beq_iff_eq] at he
      subst he
      exact .toServer c hp
    | port g e => exact portStep_stepped h

/-! ## The local ports -/

def localPort (n : Net) (g : Nat) : Port.St := n.localPorts[g]?.getD (Port.init [])

/-- What a step of the simulator is for a local port. -/
def portEvents (g : Nat) (n : Net) : Ev → List Port.Ev
  | .toServer device c =>
    match n.bus.alive.find? (·.1 == device) with
    | some p => (n.gatewayListeners.filter (·.localPort == g)).map fun _ => .input p.2 [c]
    | none => []
  | .port g' e => if g' = g then [e] else []
  | _ => []

/-- The calls that were passed on to a local port, in order. -/
def requestsTo (n : Net) (g : Nat) : List (Flow × DataBuffer) :=
  n.sent.flatMap fun m => List.replicate (m.localPorts.count g) (m.call.flow m.deviceId, m.call.data)

theorem pushData_foldl (id : DeviceId) (data : DataBuffer) (l : List DevicePort) (n : Net) :
    l.foldl (pushData hash pc id data) n = { n with
      localPorts := l.foldl
        (fun ps p => ps.modify p.localPort fun s => input hash id s (pc.parseCalls data)) n.localPorts } := by
  induction l generalizing n with
  | nil => rfl
  | cons p l ih => exact ih (n.pushData hash pc id data p)

theorem toServer_eq (n : Net) (p : Device × DeviceId) (c : Call) : n.toServer hash pc p c = { n with
    localPorts :=
      n.gatewayListeners.foldl (fun ps q => ps.modify q.localPort fun s => input hash p.2 s [c]) n.localPorts
    sent := n.sent ++ [⟨p.1, p.2, c, n.gatewayListeners.map (·.localPort)⟩] } := by
  simp only [toServer, publishDeviceData, pushData_foldl, pc.calls]

theorem getD_modify {α : Type} (l : List α) (i g : Nat) (f : α → α) (a : α) (hi : i < l.length) :
    (l.modify i f)[g]?.getD a = if i = g then f (l[g]?.getD a) else l[g]?.getD a := by
  rw [List.getElem?_modify]
  split
  · next h =>
    subst h
    rw [List.getElem?_eq_getElem hi]
    rfl
  · simp

/-- Each listener of the local port makes one input. -/
theorem inputs_exec (id : DeviceId) (calls : List Call) (l : List DevicePort) (ps : List Port.St) (g : Nat)
    (hl : ∀ p ∈ l, p.localPort < ps.length) :
    exec (Port.step hash) (ps[g]?.getD (Port.init [])) ((l.filter (·.localPort == g)).map fun _ => .input id calls) =
      some ((l.foldl (fun ps p => ps.modify p.localPort fun s => input hash id s calls) ps)[g]?.getD (Port.init [])) := by
  induction l generalizing ps with
  | nil => rfl
  | cons p l ih =>
    have hp := hl p List.mem_cons_self
    have hrest := ih (ps.modify p.localPort fun s => input hash id s calls) fun q hq => by
      rw [List.length_modify]
      exact hl q (List.mem_cons_of_mem _ hq)
    rw [getD_modify ps p.localPort g _ _ hp] at hrest
    rw [List.foldl_cons, ← hrest]
    by_cases hg : p.localPort = g
    · rw [List.filter_cons, if_pos (beq_iff_eq.mpr hg), if_pos hg]
      rfl
    · rw [List.filter_cons, if_neg (by simpa using hg), if_neg hg]

structure Inv (hash : ServerEndpoints → UInt64) (n : Net) : Prop where
  listeners : n.gatewayListeners = n.devicePorts
  numbers : (n.devicePorts.map (·.number)).Nodup
  below : ∀ p ∈ n.devicePorts, p.number < n.constructed ∧ p.localPort < n.localPorts.length
  ports : ∀ g, Port.Inv hash (n.localPort g) ∧ Told (n.localPort g)

theorem construct_localPort (known : List (List Server)) (g : Nat) :
    (construct known).localPort g = Port.init ((known[g]?).getD []) := by
  unfold localPort construct
  rw [List.getElem?_map]
  cases known[g]? <;> rfl

theorem construct_inv (known : List (List Server)) : Inv hash (construct known) where
  listeners := rfl
  numbers := List.nodup_nil
  below p hp := by cases hp
  ports g := by
    rw [construct_localPort]
    exact ⟨Port.init_inv _, init_told _⟩

/-- A step of the simulator is a run of each local port. -/
theorem Stepped.run (h : Stepped hash pc ndebug n ev t) (hi : Inv hash n) (g : Nat) :
    exec (Port.step hash) (n.localPort g) (portEvents g n ev) = some (t.localPort g) := by
  cases h with
  | bus | attach | detach => rfl
  | @toServer p c hf =>
    have hl : ∀ q ∈ n.gatewayListeners, q.localPort < n.localPorts.length := by
      rw [hi.listeners]
      exact fun q hq => (hi.below q hq).2
    simp only [portEvents, hf, localPort, toServer_eq]
    exact inputs_exec p.2 [c] _ _ g hl
  | @port g' e s u hs hr h =>
    unfold portEvents localPort
    simp only [List.getElem?_set]
    split
    · next hg =>
      subst hg
      rw [if_pos (List.getElem?_eq_some_iff.mp hs).1, hs]
      exact exec_cons_some.mpr ⟨u, h, rfl⟩
    · rfl

theorem foldl_modify_length (f : Port.St → Port.St) (l : List DevicePort) (ps : List Port.St) :
    (l.foldl (fun ps q => ps.modify q.localPort f) ps).length = ps.length := by
  induction l generalizing ps with
  | nil => rfl
  | cons q l ih => rw [List.foldl_cons, ih, List.length_modify]

/-- Device ports are told from each other by their numbers. -/
theorem erase_eq (l : List DevicePort) (hl : (l.map (·.number)).Nodup) {p : DevicePort} (hp : p ∈ l) :
    l.erase p = l.filter (·.number != p.number) := by
  rw [List.Nodup.erase_eq_filter (List.Nodup.of_map _ hl)]
  refine List.filter_congr fun q hq => ?_
  rw [Bool.eq_iff_iff, bne_iff_ne, bne_iff_ne]
  exact not_congr ⟨fun h => by rw [h], fun h => List.inj_on_of_nodup_map hl hq hp h⟩

theorem Inv.ports_step (hi : Inv hash n) (h : Stepped hash pc ndebug n ev t) (g : Nat) :
    Port.Inv hash (t.localPort g) ∧ Told (t.localPort g) :=
  invariant (I := fun s => Port.Inv hash s ∧ Told s) (fun _ _ _ hs hst => ⟨Port.step_inv hs.1 hst, hs.2.step hs.1 hst⟩)
    (hi.ports g) (h.run hi g)

theorem step_inv (hi : Inv hash n) (h : step hash pc ndebug n ev = some t) : Inv hash t := by
  obtain ⟨h, -⟩ := step_stepped h
  have hports := hi.ports_step h
  cases h with
  | bus => exact ⟨hi.listeners, hi.numbers, hi.below, hports⟩
  | @attach g hg =>
    refine ⟨congrArg (· ++ _) hi.listeners, ?_, fun p hp => ?_, hports⟩
    · simp only [attach, List.map_append, List.map_singleton, List.nodup_append]
      refine ⟨hi.numbers, by simp, fun i hm k hk he => ?_⟩
      obtain ⟨p, hp, rfl⟩ := List.mem_map.mp hm
      rw [List.mem_singleton.mp hk] at he
      exact absurd he (Nat.ne_of_lt (hi.below p hp).1)
    · rcases List.mem_append.mp hp with hp | hp
      · exact ⟨Nat.lt_succ_of_lt (hi.below p hp).1, (hi.below p hp).2⟩
      · rw [List.mem_singleton.mp hp]
        exact ⟨Nat.lt_succ_self _, hg⟩
  | @detach p hp =>
    refine ⟨?_, (List.filter_sublist.map _).nodup hi.numbers, fun q hq => hi.below q (List.mem_filter.mp hq).1, hports⟩
    simp only [detach, removeGatewayListener, hi.listeners]
    exact erase_eq _ hi.numbers hp
  | toServer c hf =>
    rw [toServer_eq] at hports ⊢
    refine ⟨hi.listeners, hi.numbers, fun q hq => ?_, hports⟩
    rw [foldl_modify_length]
    exact hi.below q hq
  | port =>
    refine ⟨hi.listeners, hi.numbers, fun q hq => ?_, hports⟩
    rw [List.length_set]
    exact hi.below q hq

theorem projects (hash : ServerEndpoints → UInt64) (pc : ProtocolContext) (ndebug : Bool) (g : Nat) :
    Projects (step hash pc ndebug) (Port.step hash) (·.localPort g) (portEvents g) (Inv hash) :=
  ⟨fun _ _ _ hi h => step_inv hi h, fun _ _ _ hi h => (step_stepped h).1.run hi g⟩

theorem step_requestsTo (h : step hash pc ndebug n ev = some t) (g : Nat) :
    t.requestsTo g = n.requestsTo g ++ (portEvents g n ev).flatMap requests := by
  obtain ⟨h, -⟩ := step_stepped h
  cases h with
  | bus | attach | detach => exact (List.append_nil _).symm
  | @toServer p c hf =>
    rw [toServer_eq]
    simp only [requestsTo, List.flatMap_append, List.flatMap_singleton, portEvents, hf, List.flatMap_map, requests]
    congr 1
    rw [List.count, List.countP_map, List.countP_eq_length_filter]
    simp only [Function.comp_def, List.map_cons, List.map_nil]
    exact (List.map_const' ..).symm.trans List.map_eq_flatMap
  | @port g' e s u hs hr h =>
    have hnone : (portEvents g n (.port g' e)).flatMap requests = [] := by
      simp only [portEvents]
      split
      · rw [List.flatMap_singleton, hr]
      · rfl
    rw [hnone]
    exact (List.append_nil _).symm

theorem requestsTo_eq {known : List (List Server)} {es : List Ev}
    (h : exec (step hash pc ndebug) (construct known) es = some n) (g : Nat) :
    n.requestsTo g = (image (step hash pc ndebug) (portEvents g) (construct known) es).flatMap requests :=
  (projects hash pc ndebug g).shows (fun _ _ _ _ h => step_requestsTo h g)
    (construct_inv known) h

theorem localPort_exec {known : List (List Server)} {es : List Ev}
    (h : exec (step hash pc ndebug) (construct known) es = some n) (g : Nat) :
    exec (Port.step hash) (Port.init (known[g]?.getD []))
      (image (step hash pc ndebug) (portEvents g) (construct known) es) = some (n.localPort g) := by
  rw [← construct_localPort]
  exact (projects hash pc ndebug g).run (construct_inv known) h

theorem writes_eq {known : List (List Server)} {es : List Ev}
    (h : exec (step hash pc ndebug) (construct known) es = some n) (g : Nat) :
    (n.localPort g).writes.map (fun w => (w.flow, w.data)) = n.requestsTo g :=
  (requests_written (localPort_exec h g)).trans (requestsTo_eq h g).symm

/-- Each local port goes through a run of its own machine. Its requests are the calls of
    the devices, in order, each once for every device port on it when the call was made,
    and these are what it writes. -/
theorem localPort_run {known : List (List Server)} {es : List Ev}
    (h : exec (step hash pc ndebug) (construct known) es = some n) (g : Nat) :
    ∃ ps, exec (Port.step hash) (Port.init (known[g]?.getD [])) ps = some (n.localPort g) ∧
      ps.flatMap requests = n.requestsTo g ∧
      (n.localPort g).writes.map (fun w => (w.flow, w.data)) = n.requestsTo g :=
  ⟨_, localPort_exec h g, (requestsTo_eq h g).symm, writes_eq h g⟩

/-- Two device ports on one local port, then one of them. -/
theorem localPort_run_twice :
    let es := [Ev.bus .create, .attach 0, .attach 0, .toServer 0 (.toServerId 1 5 [10]), .detach 0,
      .toServer 0 (.toServerId 1 5 [20])]
    ∃ n, exec (step (fun _ => 0) .plain false) (construct [[]]) es = some n ∧
      (n.localPort 0).writes.map (fun w => (w.flow, w.data)) =
        [(⟨1, 1, .id 5⟩, [10]), (⟨1, 1, .id 5⟩, [10]), (⟨1, 1, .id 5⟩, [20])] := by
  intro es
  obtain ⟨ps, -, -, hw⟩ :=
    localPort_run (rfl : exec (step (fun _ => 0) .plain false) (construct [[]]) es = some _) 0
  exact ⟨_, rfl, hw⟩

end Net

end AetherGateway.Sim
