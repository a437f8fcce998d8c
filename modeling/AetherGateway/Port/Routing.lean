/-
  AetherGateway.Port.Routing — to which stream the data of a call goes
  (see `AetherGateway.Port.LocalPort`).

  A call finds its stream by device, client and 32-bit identity of the server; the entry
  it finds may have been opened for another server of that identity (`Clash`).
  - `requests_written`: the data of the calls is written in the order of the calls.
  - `routed_iff`: in a run every payload goes to a stream made for its device, client and
    server, and different flows share no stream, exactly when no call clashes.
  - `misrouted`: an id and an endpoint list of one identity share a stream.
-/

import AetherGateway.Port.Invariant

namespace AetherGateway.Port

open AetherGateway.Streams AetherGateway.Runs

variable {hash : ServerEndpoints → UInt64} {s t : St}

/-- Every payload went to a stream made for exactly its flow. -/
def Routed (s : St) : Prop := ∀ w ∈ s.writes, s.made[w.stream]? = some w.flow

/-- Calls of different flows went to different streams. -/
def Apart (s : St) : Prop := ∀ w ∈ s.writes, ∀ w' ∈ s.writes, w.stream = w'.stream → w.flow = w'.flow

theorem Routed.apart (h : Routed s) : Apart s := by
  intro w hw w' hw' he
  have hf := h w hw
  rw [he, h w' hw'] at hf
  exact (Option.some.inj hf).symm

/-- The entry under the flow's key was opened for another server. -/
def Clash (hash : ServerEndpoints → UInt64) (s : St) (f : Flow) : Prop :=
  (s.streamStore.lookup (f.key hash)).any (·.server ≠ f.server) = true

instance (s : St) (f : Flow) : Decidable (Clash hash s f) := inferInstanceAs (Decidable (_ = _))

def CallsApart (hash : ServerEndpoints → UInt64) (d : UInt8) : St → List Call → Prop
  | _, [] => True
  | s, c :: calls => ¬ Clash hash s (c.flow d) ∧ CallsApart hash d (api hash d s c) calls

/-- No call of the event clashes. -/
def NoClash (hash : ServerEndpoints → UInt64) (s : St) : Ev → Prop
  | .input d calls => CallsApart hash d s calls
  | _ => True

/-! ## One call -/

/-- A flow is its key and its server. -/
theorem Flow.eq_of_key {f f' : Flow} (hk : f.key hash = f'.key hash) (hs : f.server = f'.server) : f = f' := by
  obtain ⟨d, c, sv⟩ := f
  obtain ⟨d', c', sv'⟩ := f'
  simp only [Flow.key, Key.mk.injEq] at hk
  simp only at hs
  rw [hk.1, hk.2.1, hs]

theorem openStream_made (hash : ServerEndpoints → UInt64) (s : St) (f : Flow) :
    s.made <+: (openStream hash s f).made := by
  cases hk : s.streamStore.lookup (f.key hash) with
  | some e => exact ⟨[], by rw [openStream_found hk, List.append_nil]⟩
  | none => rw [openStream_new hk]; exact List.prefix_append _ _

theorem openStream_writes (hash : ServerEndpoints → UInt64) (s : St) (f : Flow) :
    (openStream hash s f).writes = s.writes := by
  cases hk : s.streamStore.lookup (f.key hash) with
  | some e => rw [openStream_found hk]
  | none => rw [openStream_new hk]

/-- Opening leaves an entry under the flow's key, for its server unless there is a clash. -/
theorem openStream_lookup (hash : ServerEndpoints → UInt64) (s : St) (f : Flow) :
    ∃ e, (openStream hash s f).streamStore.lookup (f.key hash) = some e ∧ (e.server = f.server ↔ ¬ Clash hash s f) := by
  cases hk : s.streamStore.lookup (f.key hash) with
  | some e => rw [openStream_found hk]; exact ⟨e, hk, by simp [Clash, hk]⟩
  | none => rw [openStream_new hk]; exact ⟨_, AList.lookup_insert _, by simp [Clash, hk]⟩

theorem write_stored {f : Flow} {e : StreamStore} (hk : s.streamStore.lookup (f.key hash) = some e) (d : DataBuffer) :
    write hash s f d = { s with
      streamStore := s.streamStore.insert (f.key hash)
        { e with stream := { e.stream with buffer := e.stream.buffer ++ [d] } }
      writes := s.writes ++ [⟨f, e.stream.id, d⟩] } := by
  unfold write; rw [hk]

/-- A call writes its data once, to a stream made for its flow unless there is a clash. -/
theorem api_writes (h : Inv hash s) (d : UInt8) (c : Call) :
    ∃ g, (api hash d s c).writes = s.writes ++ [⟨c.flow d, g, c.data⟩] ∧ s.made <+: (api hash d s c).made ∧
      ((api hash d s c).made[g]? = some (c.flow d) ↔ ¬ Clash hash s (c.flow d)) := by
  obtain ⟨e, he, hsv⟩ := openStream_lookup hash s (c.flow d)
  obtain ⟨f, hf, hkf, hsf⟩ := (h.openStream (c.flow d)).entry _ e he
  have hw := write_stored he c.data
  refine ⟨e.stream.id, ?_, ?_, ?_⟩
  · rw [api, hw, openStream_writes]
  · rw [api, hw]; exact openStream_made hash s _
  · rw [api, hw]
    show (openStream hash s (c.flow d)).made[e.stream.id]? = some (c.flow d) ↔ _
    rw [hf, Option.some.injEq, ← hsv, ← hsf]
    exact ⟨fun hff => by rw [hff], Flow.eq_of_key hkf⟩

/-- A call makes at most a stream for its own flow. -/
theorem api_made (hash : ServerEndpoints → UInt64) (d : UInt8) (s : St) (c : Call) {f : Flow}
    (hf : f ∈ (api hash d s c).made) : f ∈ s.made ∨ f = c.flow d := by
  obtain ⟨e, he, -⟩ := openStream_lookup hash s (c.flow d)
  rw [api, write_stored he c.data] at hf
  cases hk : s.streamStore.lookup ((c.flow d).key hash) with
  | some e => rw [openStream_found hk] at hf; exact Or.inl hf
  | none =>
    rw [openStream_new hk] at hf
    rcases List.mem_append.mp hf with hf | hf
    · exact Or.inl hf
    · exact Or.inr (List.mem_singleton.mp hf)

/-- Calls leave the history of the servers' side alone. -/
theorem api_frame (hash : ServerEndpoints → UInt64) (d : UInt8) (s : St) (c : Call) :
    (api hash d s c).output = s.output ∧ (api hash d s c).arrived = s.arrived ∧
      (api hash d s c).handed = s.handed ∧ (api hash d s c).reported = s.reported := by
  obtain ⟨e, he, -⟩ := openStream_lookup hash s (c.flow d)
  rw [api, write_stored he c.data]
  cases hk : s.streamStore.lookup ((c.flow d).key hash) with
  | some e => rw [openStream_found hk]; exact ⟨rfl, rfl, rfl, rfl⟩
  | none => rw [openStream_new hk]; exact ⟨rfl, rfl, rfl, rfl⟩

theorem input_frame (hash : ServerEndpoints → UInt64) (d : UInt8) (s : St) (calls : List Call) :
    (input hash d s calls).output = s.output ∧ (input hash d s calls).arrived = s.arrived ∧
      (input hash d s calls).handed = s.handed ∧ (input hash d s calls).reported = s.reported := by
  unfold input
  induction calls generalizing s with
  | nil => exact ⟨rfl, rfl, rfl, rfl⟩
  | cons c calls ih =>
    obtain ⟨ho, ha, hh, hr⟩ := ih (api hash d s c)
    obtain ⟨ho', ha', hh', hr'⟩ := api_frame hash d s c
    exact ⟨ho.trans ho', ha.trans ha', hh.trans hh', hr.trans hr'⟩

/-- What is misrouted stays misrouted. -/
theorem routed_of_extends (h : Inv hash s) (hw : s.writes <+: t.writes) (hm : s.made <+: t.made) (ht : Routed t) :
    Routed s := by
  intro w hmem
  obtain ⟨f, hf, -⟩ := h.writes w hmem
  have hlt := (List.getElem?_eq_some_iff.mp hf).1
  obtain ⟨l, hl⟩ := hm
  have := ht w (hw.subset hmem)
  rwa [← hl, List.getElem?_append_left hlt] at this

theorem routed_api (h : Inv hash s) (d : UInt8) (c : Call) :
    Routed (api hash d s c) ↔ Routed s ∧ ¬ Clash hash s (c.flow d) := by
  obtain ⟨g, hw, hm, hg⟩ := api_writes h d c
  constructor
  · intro hr
    refine ⟨routed_of_extends h ⟨_, hw.symm⟩ hm hr, hg.mp ?_⟩
    exact hr ⟨c.flow d, g, c.data⟩ (by rw [hw]; simp)
  · intro ⟨hr, hc⟩ w hmem
    rw [hw] at hmem
    rcases List.mem_append.mp hmem with hmem | hmem
    · obtain ⟨l, hl⟩ := hm
      have hf := hr w hmem
      rw [← hl, List.getElem?_append_left (List.getElem?_eq_some_iff.mp hf).1]
      exact hf
    · rw [List.mem_singleton] at hmem
      subst hmem
      exact hg.mpr hc

theorem routed_input (h : Inv hash s) (d : UInt8) (calls : List Call) :
    Routed (input hash d s calls) ↔ Routed s ∧ CallsApart hash d s calls := by
  unfold input
  induction calls generalizing s with
  | nil => exact (and_iff_left trivial).symm
  | cons c calls ih =>
    show Routed (calls.foldl (api hash d) (api hash d s c)) ↔ _
    rw [ih (h.api d c), routed_api h d c, CallsApart, and_assoc]

/-! ## Runs -/

def requests : Ev → List (Flow × DataBuffer)
  | .input d calls => calls.map fun c => (c.flow d, c.data)
  | _ => []

theorem input_writes (h : Inv hash s) (d : UInt8) (calls : List Call) :
    (input hash d s calls).writes.map (fun w => (w.flow, w.data)) =
      s.writes.map (fun w => (w.flow, w.data)) ++ calls.map fun c => (c.flow d, c.data) := by
  unfold input
  induction calls generalizing s with
  | nil => simp
  | cons c calls ih =>
    obtain ⟨g, hw, -, -⟩ := api_writes h d c
    rw [List.foldl_cons, ih (h.api d c), hw]
    simp

/-- Only calls make streams and write. -/
theorem Moved.frame {ev : Ev} (h : Moved hash s ev t) :
    (∃ d calls, ev = .input d calls ∧ t = Port.input hash d s calls) ∨
      (requests ev = [] ∧ NoClash hash s ev ∧ t.made = s.made ∧ t.writes = s.writes) := by
  cases h with
  | input d calls => exact Or.inl ⟨d, calls, rfl, rfl⟩
  | @turn ev a act m hs ha hm ht =>
    cases ev with
    | input d calls => cases hs
    | _ => exact Or.inr ⟨rfl, trivial, rfl, rfl⟩
  | tie _ _ _ _ _ _ => exact Or.inr ⟨rfl, trivial, rfl, rfl⟩
  | @link x st _ _ =>
    have he := linkUpdate_erases s x st
    exact Or.inr ⟨rfl, trivial, by rw [he.frame], by rw [he.frame]⟩
  | @streamUpdate k e hk =>
    have he := erases_emitUpdate s e.stream.id
    exact Or.inr ⟨rfl, trivial, by rw [he.frame], by rw [he.frame]⟩
  | forward _ _ _ => exact Or.inr ⟨rfl, trivial, rfl, rfl⟩
  | packet _ _ => exact Or.inr ⟨rfl, trivial, rfl, rfl⟩

/-- What was written stays written. -/
theorem Moved.writes {ev : Ev} (h : Moved hash s ev t) (hi : Inv hash s) : s.writes <+: t.writes := by
  rcases h.frame with ⟨d, calls, -, rfl⟩ | ⟨-, -, -, hw⟩
  · unfold Port.input
    clear h
    induction calls generalizing s with
    | nil => exact List.prefix_refl _
    | cons c calls ih =>
      obtain ⟨g, hw, -, -⟩ := api_writes hi d c
      refine List.IsPrefix.trans ?_ (ih (hi.api d c))
      rw [hw]; exact List.prefix_append _ _
  · exact ⟨[], by rw [hw, List.append_nil]⟩

/-- What a server stream was made for does not change. -/
theorem Moved.madeFor {ev : Ev} (h : Moved hash s ev t) (hi : Inv hash s) {x : Nat} {f : ServeKind}
    (hf : s.mgr.madeFor x = some f) : t.mgr.madeFor x = some f := by
  cases h with
  | input d calls =>
    unfold Port.input
    induction calls generalizing s with
    | nil => exact hf
    | cons c calls ih =>
      refine ih (hi.api d c) ?_
      obtain ⟨e, he, -⟩ := openStream_lookup hash s (c.flow d)
      rw [api, write_stored he c.data]
      cases hk : s.streamStore.lookup ((c.flow d).key hash) with
      | some e => rw [openStream_found hk]; exact hf
      | none =>
        obtain ⟨act, -, -, -, -, -, hmade⟩ := hi.gwStream (c.flow d).server
        rw [openStream_new hk]; exact hmade x f hf
  | turn _ _ _ ht => exact ht.made x f hf
  | tie _ _ _ _ _ _ => exact hf
  | @link y st _ _ =>
    rw [(linkUpdate_erases s y st).mgr]
    show (s.mgr.setLinkState y st).madeFor x = _
    rw [Manager.madeFor_setLinkState]; exact hf
  | streamUpdate _ => rw [(erases_emitUpdate s _).mgr]; exact hf
  | forward _ _ _ => exact hf
  | packet _ _ => exact hf

/-- The data of the calls is written once each, in the order of the calls. -/
theorem requests_written {known : List Server} {es : List Ev} (h : exec (step hash) (init known) es = some s) :
    s.writes.map (fun w => (w.flow, w.data)) = es.flatMap requests := by
  suffices hgen : ∀ (es : List Ev) (s t : St), Inv hash s → exec (step hash) s es = some t →
      t.writes.map (fun w => (w.flow, w.data)) = s.writes.map (fun w => (w.flow, w.data)) ++ es.flatMap requests from
    hgen es _ s (init_inv known) h
  intro es
  induction es with
  | nil => intro s t _ h; cases h; simp
  | cons ev es ih =>
    intro s t hi h
    obtain ⟨u, hu, h⟩ := exec_cons_some.mp h
    rw [ih u t (step_inv hi hu) h, List.flatMap_cons, ← List.append_assoc]
    congr 1
    rcases (step_moved hi hu).frame with ⟨d, calls, rfl, rfl⟩ | ⟨hq, -, -, hw⟩
    · exact input_writes hi d calls
    · rw [hq, hw, List.append_nil]

theorem routed_step {ev : Ev} (h : Inv hash s) (hs : step hash s ev = some t) (hr : Routed s)
    (hc : NoClash hash s ev) : Routed t := by
  rcases (step_moved h hs).frame with ⟨d, calls, rfl, rfl⟩ | ⟨-, -, hm, hw⟩
  · exact (routed_input h d calls).mpr ⟨hr, hc⟩
  · intro w hmem
    rw [hm]; exact hr w (by rw [← hw]; exact hmem)

theorem misrouted_step {ev : Ev} (h : Inv hash s) (hc : ¬ NoClash hash s ev) :
    ∃ t, step hash s ev = some t ∧ ¬ Routed t := by
  cases ev with
  | input d calls => exact ⟨_, rfl, fun hr => hc ((routed_input h d calls).mp hr).2⟩
  | _ => exact absurd trivial hc

/-- A run routes every payload to its own flow's stream exactly when no call clashes. -/
theorem routed_iff (hash : ServerEndpoints → UInt64) (known : List Server) (es : List Ev) :
    Always (step hash) (fun s => Routed s ∧ Apart s) (init known) es ↔
      Meets (step hash) (NoClash hash) (init known) es := by
  refine always_iff_meets (I := fun s => Inv hash s ∧ Routed s) (fun s h => ⟨h.2, h.2.apart⟩) ?_ ?_
    ⟨init_inv known, fun w hw => by cases hw⟩
  · intro s ev t ⟨hi, hr⟩ hc hs
    exact ⟨step_inv hi hs, routed_step hi hs hr hc⟩
  · intro s ev ⟨hi, _⟩ hc
    obtain ⟨t, ht, hn⟩ := misrouted_step hi hc
    exact ⟨t, ht, fun hp => hn hp.1⟩

/-- With a hash of 5 for an empty endpoint list, its data goes to the stream of id 5. -/
theorem misrouted :
    let es := [Ev.input 1 [.toServerId 1 5 [10], .toServer 1 ⟨[]⟩ [20]]]
    ¬ Always (step fun _ => 5) (fun s => Routed s ∧ Apart s) (init []) es := by
  intro es h
  have hr : Routed (input (fun _ => 5) 1 (init []) [.toServerId 1 5 [10], .toServer 1 ⟨[]⟩ [20]]) :=
    (h.2 _ rfl).1
  have := hr ⟨⟨1, 1, .endpoints ⟨[]⟩⟩, 0, [20]⟩ (by decide)
  revert this
  decide

end AetherGateway.Port
