/-
  AetherGateway.Sim.EndToEnd — what a device of the simulator receives (see
  `AetherGateway.Sim.Network`).

  A reply finds its way back by the 8-bit id that its request came with. While the ids
  last (`Lasts`) an id is one device's for good, so that a reply reaches the device that
  asked or, when that is gone, nobody.
  - `replies_authentic`: in every run each message a device receives comes from a stream
    made for a server that this device, for this client, called over this local port.
  - `replies_exact`: a packet on a server stream brings one message for each device port
    to each device alive whose client's entry is tied to the stream, and no other message;
    nothing else brings one.
-/

import AetherGateway.Sim.Network

namespace AetherGateway.Sim.Net

open AetherGateway.Runs AetherGateway.Streams AetherGateway.Port

variable {hash : ServerEndpoints → UInt64} {pc : ProtocolContext} {ndebug : Bool} {n t : Net} {ev : Ev} {g x : Nat}

/-- No device after the 254th, where no assertion would end the program. -/
def Lasts (ndebug : Bool) (n : Net) : Ev → Prop
  | .bus .create => ndebug = true → n.bus.created < 254
  | _ => True

instance (n : Net) : (ev : Ev) → Decidable (Lasts ndebug n ev)
  | .bus .create => inferInstanceAs (Decidable (_ → _))
  | .bus (.destroy _) | .attach _ | .detach _ | .toServer _ _ | .port _ _ => .isTrue trivial

/-- The device called the server of the stream for the client of the message, and the call
    was passed on to the local port. -/
def Answers (n : Net) (r : Received) : Prop :=
  ∃ m ∈ n.sent, m.device = r.device ∧ m.call.clientId = r.message.clientId ∧ r.localPort ∈ m.localPorts ∧
    (n.localPort r.localPort).mgr.madeFor r.serverStream = some m.call.server

/-! ## Ids -/

def Sound (ndebug : Bool) (b : Sim.St) : Prop := Sim.Inv b ∨ (b.overflowed && !ndebug) = true

theorem bus_sound {b c : Sim.St} {e : Sim.Ev} (hi : Sim.Inv b) (hl : ndebug = true → Sim.Lasts b e)
    (h : Sim.step ndebug b e = some c) : Sound ndebug c := by
  by_cases hlast : Sim.Lasts b e
  · exact Or.inl (Sim.step_inv hi hlast h)
  · -- the assertion fails
    obtain ⟨rfl, hge⟩ := Classical.not_imp.mp hlast
    have hnd : ndebug = false := by
      cases ndebug with
      | false => rfl
      | true => exact absurd (hl rfl) hlast
    have hnext : ¬ b.bus.nextDeviceId < 255 := by
      have hn := hi.next
      rw [UInt8.lt_iff_toNat_lt]
      simp
      omega
    rw [step_create h, hnd]
    exact Or.inr (by rw [create_overflows hnext]; rfl)

theorem step_sound (hb : Sound ndebug n.bus) (hl : Lasts ndebug n ev) (h : step hash pc ndebug n ev = some t) :
    Sound ndebug t.bus := by
  obtain ⟨hst, hrun⟩ := step_stepped h
  have hi : Sim.Inv n.bus := hb.resolve_right (by rw [hrun]; decide)
  cases hst with
  | bus hbus =>
    refine bus_sound hi (fun hn he => ?_) hbus
    rw [he] at hl
    exact hl hn
  | attach => exact hb
  | detach => exact hb
  | toServer => rw [toServer_eq]; exact hb
  | port => exact hb

/-- The device registered under an id is the one alive with it. -/
theorem mem_onOutput (hi : Sim.Inv n.bus) {o : Nat × Output} {r : Received} :
    r ∈ n.onOutput pc g o ↔
      (r.device, o.2.deviceId) ∈ n.bus.alive ∧ r.message = o.2.call ∧ r.localPort = g ∧ r.serverStream = o.1 := by
  unfold onOutput devicePushData GwSimDataBus.publishGwData
  rw [← hi.listeners]
  obtain ⟨device, message, localPort, serverStream⟩ := r
  cases hl : n.bus.bus.deviceListeners o.2.deviceId with
  | none => simp
  | some d => simp [pc.fromServer, eq_comm]

/-! ## Where a message comes from -/

def Published (n : Net) : Prop := ∀ m ∈ n.sent, m.deviceId.toNat = m.device + 1

theorem Published.step (hp : Published n) (hb : Sound ndebug n.bus) (h : step hash pc ndebug n ev = some t) :
    Published t := by
  obtain ⟨hst, hrun⟩ := step_stepped h
  have hi : Sim.Inv n.bus := hb.resolve_right (by rw [hrun]; decide)
  cases hst with
  | bus | attach | detach | port => exact hp
  | toServer c hf =>
    rw [toServer_eq]
    intro m hm
    rcases List.mem_append.mp hm with hm | hm
    · exact hp m hm
    · rw [List.mem_singleton.mp hm]
      exact (hi.ids _ (List.mem_of_find?_eq_some hf)).1

/-- A call in the history stays there, and a stream stays made for its server. -/
theorem Answers.step {r : Received} (ha : n.Answers r) (hi : Inv hash n) (h : step hash pc ndebug n ev = some t) :
    t.Answers r := by
  obtain ⟨hst, -⟩ := step_stepped h
  obtain ⟨m, hm, hd, hc, hg, hmade⟩ := ha
  have hsent : m ∈ t.sent := by
    cases hst with
    | bus | attach | detach | port => exact hm
    | toServer => rw [toServer_eq]; exact List.mem_append_left _ hm
  refine ⟨m, hsent, hd, hc, hg, ?_⟩
  refine (invariant (I := fun s => Port.Inv hash s ∧ s.mgr.madeFor r.serverStream = some m.call.server) ?_
    ⟨(hi.ports _).1, hmade⟩ (hst.run hi r.localPort)).2
  exact fun s e u hs hu => ⟨Port.step_inv hs.1 hu, (step_moved hs.1 hu).madeFor hs.1 hs.2⟩

/-- What a local port wrote for a flow, a device called. -/
theorem sent_of_write (hw : (n.localPort g).writes.map (fun w => (w.flow, w.data)) = n.requestsTo g) {w : Write}
    (hm : w ∈ (n.localPort g).writes) : ∃ m ∈ n.sent, g ∈ m.localPorts ∧ m.call.flow m.deviceId = w.flow := by
  have hreq : (w.flow, w.data) ∈ n.requestsTo g := by
    rw [← hw]
    exact List.mem_map_of_mem (f := fun w : Write => (w.flow, w.data)) hm
  obtain ⟨m, hsent, hrep⟩ := List.mem_flatMap.mp hreq
  obtain ⟨hne, he⟩ := List.mem_replicate.mp hrep
  exact ⟨m, hsent, List.count_pos_iff.mp (Nat.pos_of_ne_zero hne), (congrArg Prod.fst he).symm⟩

/-- The emissions of a local port's step go to clients that called for the stream's server. -/
theorem emitted_addressed {s : Port.St} {e : Port.Ev} (hi : Port.Inv hash s) (ht : Told s) {o : Nat × Output}
    (ho : o ∈ emitted s e) : Port.Addressed s o.1 o.2 := by
  cases e with
  | packet x data =>
    obtain ⟨out, hout, rfl⟩ := List.mem_map.mp ho
    obtain ⟨k, hk, rfl⟩ := (mem_packetOutput hi).mp hout
    exact ht.recipient hi hk data
  | input | update | servers | serversError | serversStop | link | streamUpdate | forward => cases ho

theorem mem_output {os : List (Nat × Output)} {r : Received} (h : r ∈ n.output pc g os) :
    ∃ o ∈ os, r ∈ n.onOutput pc g o := by
  obtain ⟨o, ho, h⟩ := List.mem_flatMap.mp h
  obtain ⟨p, -, h⟩ := List.mem_flatMap.mp h
  exact ⟨o, ho, h⟩

/-- A new message answers a call of its device. -/
theorem port_answers {known : List (List Server)} {es : List Ev} {s u : Port.St} {e : Port.Ev}
    (hx : exec (step hash pc ndebug) (construct known) es = some n) (hi : Inv hash n) (hb : Sim.Inv n.bus)
    (hp : Published n) (hs : n.localPorts[g]? = some s) (hu : Port.step hash s e = some u) {r : Received}
    (hr : r ∈ n.output pc g (emitted s e)) :
    ∃ m ∈ n.sent, m.device = r.device ∧ m.call.clientId = r.message.clientId ∧ r.localPort ∈ m.localPorts ∧
      r.localPort = g ∧ u.mgr.madeFor r.serverStream = some m.call.server := by
  have hport : n.localPort g = s := by rw [localPort, hs]; rfl
  have hsi := hi.ports g
  rw [hport] at hsi
  obtain ⟨o, ho, hr⟩ := mem_output hr
  obtain ⟨halive, hmsg, hlp, hstream⟩ := (mem_onOutput hb).mp hr
  obtain ⟨w, hw, hdev, hclient, hmade⟩ := emitted_addressed hsi.1 hsi.2 ho
  rw [← hport] at hw
  obtain ⟨m, hm, hg, hflow⟩ := sent_of_write (writes_eq hx g) hw
  have hid : m.deviceId = o.2.deviceId := (congrArg Flow.deviceId hflow).trans hdev
  refine ⟨m, hm, ?_, ?_, by rw [hlp]; exact hg, hlp, ?_⟩
  · have h₁ := hp m hm
    rw [hid, (hb.ids _ halive).1] at h₁
    exact (Nat.succ.inj h₁).symm
  · rw [hmsg, ← hclient, ← hflow]
    rfl
  · rw [hstream, (step_moved hsi.1 hu).madeFor hsi.1 hmade, ← hflow]
    rfl

/-- Every message that a device receives comes from a server which this device called, for
    the message's client and over the local port that the message came from. -/
theorem replies_authentic {known : List (List Server)} {es : List Ev}
    (h : exec (step hash pc ndebug) (construct known) es = some n)
    (hm : Meets (step hash pc ndebug) (Lasts ndebug) (construct known) es) : ∀ r ∈ n.received, n.Answers r := by
  refine (reached_invariant
    (I := fun n => Inv hash n ∧ Sound ndebug n.bus ∧ Published n ∧ ∀ r ∈ n.received, n.Answers r)
    ⟨construct_inv known, Or.inl Sim.construct_inv, fun m hm => (by cases hm), fun r hr => (by cases hr)⟩ ?_ hm h).2.2.2
  intro es n ev t hx ⟨hi, hb, hp, ha⟩ hl hstep
  refine ⟨step_inv hi hstep, step_sound hb hl hstep, hp.step hb hstep, fun r hr => ?_⟩
  by_cases hold : r ∈ n.received
  · exact (ha r hold).step hi hstep
  · obtain ⟨hst, hrun⟩ := step_stepped hstep
    have hbus : Sim.Inv n.bus := hb.resolve_right (by rw [hrun]; decide)
    cases hst with
    | bus | attach | detach => exact absurd hr hold
    | toServer => rw [toServer_eq] at hr; exact absurd hr hold
    | @port g e s u hs hreq hu =>
      have hnew := (List.mem_append.mp hr).resolve_left hold
      obtain ⟨m, hm, hd, hc, hlp, hg, hmade⟩ := port_answers hx hi hbus hp hs hu hnew
      refine ⟨m, hm, hd, hc, hlp, ?_⟩
      rw [hg, localPort, List.getElem?_set_self (List.getElem?_eq_some_iff.mp hs).1]
      exact hmade

/-- Device 0 asks server 5 for its client 1 and gets the server's packet. -/
theorem replies_authentic_one :
    let es := [Ev.bus .create, .attach 0, .toServer 0 (.toServerId 1 5 [10]), .port 0 (.update 0), .port 0 (.update 0),
      .port 0 (.packet 0 [7])]
    ∃ n, exec (step (fun _ => 0) .plain true) (construct [[⟨5, []⟩]]) es = some n ∧
      n.received = [⟨0, ⟨1, [7]⟩, 0, 0⟩] ∧ n.Answers ⟨0, ⟨1, [7]⟩, 0, 0⟩ := by
  intro es
  refine ⟨_, rfl, rfl, ?_⟩
  exact replies_authentic (rfl : exec (step (fun _ => 0) .plain true) (construct [[⟨5, []⟩]]) es = some _)
    (by decide) _ List.mem_cons_self

/-! ## Each packet, and each device port, once -/

/-- How often an event brings the message: once for each device port on the local port,
    when the device is alive and the entry of its client is tied to the packet's stream. -/
def copies (n : Net) (r : Received) : Ev → Nat
  | .port g (.packet x data) =>
    if r.localPort = g ∧ r.serverStream = x ∧ r.message.data = data ∧
        ∃ k ∈ recipients (n.localPort g) x, (r.device, k.deviceId) ∈ n.bus.alive ∧ k.clientId = r.message.clientId then
      (n.subscribers g).length
    else 0
  | _ => 0

def Exact (n : Net) (ev : Ev) (t : Net) : Prop :=
  ∃ l, t.received = n.received ++ l ∧ ∀ r, l.count r = n.copies r ev

theorem onOutput_nodup (o : Nat × Output) : (n.onOutput pc g o).Nodup := by
  unfold onOutput devicePushData GwSimDataBus.publishGwData
  cases n.bus.bus.deviceListeners o.2.deviceId with
  | none => exact List.nodup_nil
  | some d => simp [pc.fromServer]

/-- The messages that one device port makes of a packet are different. -/
theorem onPacket_nodup (hb : Sim.Inv n.bus) (hi : Port.Inv hash (n.localPort g)) (data : DataBuffer) :
    ((packetOutput (n.localPort g) x data).flatMap fun o => n.onOutput pc g (x, o)).Nodup := by
  refine List.nodup_flatMap.mpr ⟨fun o _ => onOutput_nodup _, ?_⟩
  refine (packetOutput_nodup hi x data).imp fun {o o'} hne r hr hr' => hne ?_
  obtain ⟨halive, hmsg, -, -⟩ := (mem_onOutput hb).mp hr
  obtain ⟨halive', hmsg', -, -⟩ := (mem_onOutput hb).mp hr'
  have hid : o.deviceId = o'.deviceId := (hb.unique halive halive').mpr rfl
  have hcall : o.call = o'.call := hmsg.symm.trans hmsg'
  cases o
  cases o'
  simp only at hid hcall
  rw [hid, hcall]

theorem mem_onPacket (hb : Sim.Inv n.bus) (hi : Port.Inv hash (n.localPort g)) {data : DataBuffer} {r : Received} :
    r ∈ ((packetOutput (n.localPort g) x data).flatMap fun o => n.onOutput pc g (x, o)) ↔
      r.localPort = g ∧ r.serverStream = x ∧ r.message.data = data ∧
        ∃ k ∈ recipients (n.localPort g) x, (r.device, k.deviceId) ∈ n.bus.alive ∧ k.clientId = r.message.clientId := by
  simp only [List.mem_flatMap, mem_packetOutput hi, mem_onOutput hb]
  constructor
  · rintro ⟨o, ⟨k, hk, rfl⟩, halive, hmsg, hg, hx⟩
    rw [hmsg]
    exact ⟨hg, hx, rfl, k, hk, halive, rfl⟩
  · rintro ⟨hg, hx, rfl, k, hk, halive, hc⟩
    refine ⟨reply k r.message.data, ⟨k, hk, rfl⟩, halive, ?_, hg, hx⟩
    rw [reply, hc]

/-- Each device port makes the same messages. -/
theorem count_output (os : List (Nat × Output)) (r : Received) :
    (n.output pc g os).count r = (n.subscribers g).length * (os.flatMap (n.onOutput pc g)).count r := by
  unfold output
  induction os with
  | nil => rfl
  | cons o os ih =>
    have hone : ((n.subscribers g).flatMap fun _ => n.onOutput pc g o).count r =
        (n.subscribers g).length * (n.onOutput pc g o).count r := by
      simp [List.count_flatMap, Function.comp_def, List.map_const']
    rw [List.flatMap_cons, List.count_append, ih, hone, List.flatMap_cons, List.count_append, Nat.mul_add]

theorem port_exact (hb : Sim.Inv n.bus) (hi : Inv hash n) {s u : Port.St} {e : Port.Ev}
    (hs : n.localPorts[g]? = some s) (hu : Port.step hash s e = some u) (r : Received) :
    (n.output pc g (emitted s e)).count r = n.copies r (.port g e) := by
  have hport : s = n.localPort g := by rw [localPort, hs]; rfl
  subst hport
  cases e with
  | packet x data =>
    have hflat : ((emitted (n.localPort g) (.packet x data)).flatMap (n.onOutput pc g)) =
        (packetOutput (n.localPort g) x data).flatMap fun o => n.onOutput pc g (x, o) := List.flatMap_map ..
    rw [count_output, hflat, copies, (onPacket_nodup hb (hi.ports g).1 data).count]
    simp only [mem_onPacket hb (hi.ports g).1]
    split
    · exact Nat.mul_one _
    · exact Nat.mul_zero _
  | input | update | servers | serversError | serversStop | link | streamUpdate | forward => rfl

/-- In every run each step adds exactly its messages, each once for each device port. -/
theorem replies_exact {known : List (List Server)} {es : List Ev}
    (hm : Meets (step hash pc ndebug) (Lasts ndebug) (construct known) es) :
    Along (step hash pc ndebug) Exact (construct known) es := by
  refine along_of_meets (I := fun n => Inv hash n ∧ Sound ndebug n.bus)
    (fun n ev t ⟨hi, hb⟩ hl h => ⟨step_inv hi h, step_sound hb hl h⟩) (fun n ev t ⟨hi, hb⟩ _ h => ?_)
    ⟨construct_inv known, Or.inl Sim.construct_inv⟩ hm
  obtain ⟨hst, hrun⟩ := step_stepped h
  have hbus : Sim.Inv n.bus := hb.resolve_right (by rw [hrun]; decide)
  cases hst with
  | bus | attach | detach => exact ⟨[], (List.append_nil _).symm, fun _ => rfl⟩
  | toServer => rw [toServer_eq]; exact ⟨[], (List.append_nil _).symm, fun _ => rfl⟩
  | port hs hreq hu => exact ⟨_, rfl, port_exact hbus hi hs hu⟩

/-- Two devices, one of them destroyed before the packet comes. -/
theorem replies_exact_gone :
    let es := [Ev.bus .create, .bus .create, .attach 0, .toServer 0 (.toServerId 1 5 [10]), .port 0 (.update 0),
      .port 0 (.update 0), .toServer 1 (.toServerId 1 5 [20]), .port 0 (.update 1), .bus (.destroy 0),
      .port 0 (.packet 0 [7])]
    (∃ n, exec (step (fun _ => 0) .plain true) (construct [[⟨5, []⟩]]) es = some n ∧
      n.received = [⟨1, ⟨1, [7]⟩, 0, 0⟩]) ∧
    Along (step (fun _ => 0) .plain true) Exact (construct [[⟨5, []⟩]]) es := by
  intro es
  exact ⟨⟨_, rfl, rfl⟩, replies_exact (by decide)⟩

end AetherGateway.Sim.Net
