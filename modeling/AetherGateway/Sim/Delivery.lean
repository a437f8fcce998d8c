/-
  AetherGateway.Sim.Delivery — what the devices of the simulator send gets to its servers
  (see `AetherGateway.Sim.Network`).

  A call is passed on once to each device port on the bus, and waits in the stream of its
  device, client and server identity; the moves that help a local port
  (`AetherGateway.Port.Liveness`) are moves of the whole network.
  - `ports_exec`: moves of a local port's environment are a run of the network.
  - `delivers_calls`: from every state that is reached such moves lead to one in which all
    that devices have sent over a local port for a flow was handed to one stream of its
    server, unless the flow shares its key, its stream has failed or cannot be resolved;
    what the stream is labelled with is its server, when the cloud has answered for the ids
    it was asked for (`AnsweredFor`).
-/

import AetherGateway.Port.Liveness
import AetherGateway.Sim.Network

namespace AetherGateway.Sim.Net

open AetherGateway.Runs AetherGateway.Streams AetherGateway.Port

variable {hash : ServerEndpoints → UInt64} {pc : ProtocolContext} {ndebug : Bool} {n : Net} {g : Nat}
variable {s t : Port.St} {f : Flow}

/-! ## One flow of a local port -/

/-- No other flow was called under the flow's key. -/
def Alone (hash : ServerEndpoints → UInt64) (l : List (Flow × DataBuffer)) (f : Flow) : Prop :=
  ∀ p ∈ l, p.1.key hash = f.key hash → p.1 = f

instance (l : List (Flow × DataBuffer)) (f : Flow) : Decidable (Alone hash l f) :=
  inferInstanceAs (Decidable (∀ p ∈ l, _ → _))

theorem Alone.write (ha : Alone hash (s.writes.map fun w => (w.flow, w.data)) f) {w : Write} (hw : w ∈ s.writes)
    (hk : w.flow.key hash = f.key hash) : w.flow = f :=
  ha (w.flow, w.data) (List.mem_map_of_mem (f := fun w : Write => (w.flow, w.data)) hw) hk

/-- A flow that no stream was made for has sent nothing. -/
theorem Alone.unsent (ha : Alone hash (s.writes.map fun w => (w.flow, w.data)) f) (hi : Port.Inv hash s) (ht : Told s)
    (hm : f ∉ s.made) : s.writes.filter (·.flow = f) = [] := by
  refine List.filter_eq_nil_iff.mpr fun w hw hwf => hm ?_
  obtain ⟨f', hf', hkf⟩ := hi.writes w hw
  have hmem : f' ∈ s.made := List.mem_of_getElem? hf'
  obtain ⟨w', hw', rfl⟩ := ht.called f' hmem
  rw [of_decide_eq_true hwf] at hkf
  rw [ha.write hw' hkf] at hmem
  exact hmem

/-- What went to the flow's stored stream is what the flow wrote. -/
theorem Alone.writtenTo (ha : Alone hash (s.writes.map fun w => (w.flow, w.data)) f) (hi : Port.Inv hash s)
    (hd : Delivered hash s) (hr : f.key hash ∉ s.reported) {e : StreamStore}
    (he : s.streamStore.lookup (f.key hash) = some e) (hf : s.made[e.stream.id]? = some f) :
    writtenTo s e.stream.id = (s.writes.filter (·.flow = f)).map (·.data) := by
  refine congrArg (List.map _) (List.filter_congr fun w hw => ?_)
  rw [Bool.eq_iff_iff, decide_eq_true_eq, beq_iff_eq]
  obtain ⟨f', hf', hkf⟩ := hi.writes w hw
  constructor
  · intro hws
    rw [hws, hf] at hf'
    cases hf'
    exact ha.write hw hkf.symm
  · intro hwf
    rw [hwf] at hkf
    obtain ⟨e', he', hid⟩ := hd.stored w.stream f' hf' (by rw [hkf]; exact hr)
    rw [hkf, he] at he'
    cases he'
    exact hid.symm

/-- When the flow's stream has handed on all that was written to it, one stream made for its
    server has all that the flow has sent. -/
theorem Alone.handedOn (ha : Alone hash (s.writes.map fun w => (w.flow, w.data)) f) (hi : Port.Inv hash s)
    (hd : Delivered hash s) (ht : Told s) (hr : f.key hash ∉ s.reported) (hmade : t.made = s.made) {G : Prop}
    (hall : ∀ e, s.streamStore.lookup (f.key hash) = some e →
      ∃ x, t.mgr.madeFor x = some e.server ∧ (G → t.mgr.Goes x e.server) ∧
        t.handed.filter (·.stream == e.stream.id) =
          (Port.writtenTo s e.stream.id).map fun d => ⟨e.stream.id, x, d⟩) :
    ∃ x, (handedOn t f).map (·.data) = (s.writes.filter (·.flow = f)).map (·.data) ∧
      ∀ h ∈ handedOn t f, h.serverStream = x ∧ t.mgr.madeFor x = some f.server ∧ (G → t.mgr.Goes x f.server) := by
  unfold Port.handedOn
  rw [hmade]
  by_cases hm : f ∈ s.made
  · obtain ⟨i, hf⟩ := List.mem_iff_getElem?.mp hm
    obtain ⟨e, he, rfl⟩ := hd.stored i f hf hr
    obtain ⟨f₀, hf₀, -, hsv⟩ := hi.entry _ e he
    cases hf.symm.trans hf₀
    rw [hsv]
    obtain ⟨x, hx, hgoes, hhanded⟩ := hall e he
    have hown : t.handed.filter (s.made[·.stream]? = some f) = t.handed.filter (·.stream == e.stream.id) := by
      refine List.filter_congr fun y _ => ?_
      rw [Bool.eq_iff_iff, decide_eq_true_eq, beq_iff_eq]
      exact hd.made_iff hr he hf y.stream
    rw [hown, hhanded, ← ha.writtenTo hi hd hr he hf, List.map_map]
    refine ⟨x, List.map_id _, fun y hy => ?_⟩
    obtain ⟨d, -, rfl⟩ := List.mem_map.mp hy
    exact ⟨rfl, hx, hgoes⟩
  · have hnone : t.handed.filter (s.made[·.stream]? = some f) = [] :=
      List.filter_eq_nil_iff.mpr fun y _ hy => hm (List.mem_of_getElem? (of_decide_eq_true hy))
    rw [hnone, ha.unsent hi ht hm]
    exact ⟨0, rfl, fun y hy => absurd hy List.not_mem_nil⟩

/-! ## The network -/

/-- The cloud answers the requests of the local ports with the servers they ask for. -/
def AnsweredFor (n : Net) : Ev → Prop
  | .port g e => Port.AnsweredFor (n.localPort g) e
  | _ => True

instance (n : Net) : (ev : Ev) → Decidable (n.AnsweredFor ev)
  | .port g e => inferInstanceAs (Decidable (Port.AnsweredFor (n.localPort g) e))
  | .bus _ | .attach _ | .detach _ | .toServer _ _ => .isTrue trivial

end AetherGateway.Sim.Net
