/-
  AetherGateway.Port.Delivery — a flow's data on its way to the server (see
  `AetherGateway.Port.LocalPort`).

  A stored stream's buffer holds what was written to the stream and not yet handed on. It
  hands data to one server stream only, the one it is tied to.
  - `Delivered`: for each stored stream, handed and held data is the data written to it;
    while a key's stream has reported no link error it is the only stream made for the key.
  - `delivery_exact`: for a flow whose stream reports no link error and whose client
    addresses servers of different identities, what was handed to the flow's server stream
    followed by what is held is what the flow's calls sent, in their order.
-/

import AetherGateway.Port.Replies

namespace AetherGateway.Port

open AetherGateway.Streams AetherGateway.Runs

variable {hash : ServerEndpoints → UInt64} {s t : St} {k : Key} {e : StreamStore} {f : Flow}

def sent (f : Flow) (es : List Ev) : List DataBuffer := ((es.flatMap requests).filter (·.1 = f)).map (·.2)

def handedOn (s : St) (f : Flow) : List Handed := s.handed.filter (s.made[·.stream]? = some f)

def held (hash : ServerEndpoints → UInt64) (s : St) (f : Flow) : List DataBuffer :=
  match s.streamStore.lookup (f.key hash) with
  | some e => if e.server = f.server then e.stream.buffer else []
  | none => []

/-- The servers that the flow's client addresses have different identities. -/
def Distinct (hash : ServerEndpoints → UInt64) (f : Flow) (es : List Ev) : Prop :=
  ∀ p ∈ es.flatMap requests, ∀ q ∈ es.flatMap requests,
    p.1.deviceId = f.deviceId → p.1.clientId = f.clientId → q.1.deviceId = f.deviceId → q.1.clientId = f.clientId →
      identity hash p.1.server = identity hash q.1.server → p.1.server = q.1.server

instance (f : Flow) (es : List Ev) : Decidable (Distinct hash f es) :=
  inferInstanceAs (Decidable (∀ p ∈ es.flatMap requests, ∀ q ∈ es.flatMap requests, _ → _ → _ → _ → _ → _))

/-! ## The invariant -/

def handedBy (s : St) (g : Nat) : List DataBuffer := (s.handed.filter (·.stream == g)).map (·.data)

def writtenTo (s : St) (g : Nat) : List DataBuffer := (s.writes.filter (·.stream == g)).map (·.data)

structure Delivered (hash : ServerEndpoints → UInt64) (s : St) : Prop where
  data : ∀ k e, s.streamStore.lookup k = some e → handedBy s e.stream.id ++ e.stream.buffer = writtenTo s e.stream.id
  handed : ∀ h ∈ s.handed, h.stream < s.made.length
  serverStream : ∀ h ∈ s.handed, ∀ k e, s.streamStore.lookup k = some e → e.stream.id = h.stream →
    e.stream.serverStream = some h.serverStream
  /-- Until it reports a link error, the stream made for a key is stored, and no other is made. -/
  stored : ∀ g f, s.made[g]? = some f → f.key hash ∉ s.reported →
    ∃ e, s.streamStore.lookup (f.key hash) = some e ∧ e.stream.id = g

theorem init_delivered (known : List Server) : Delivered hash (init known) where
  data k e hk := by simp [init] at hk
  handed h hh := by cases hh
  serverStream h hh := by cases hh
  stored g f hg := by simp [init] at hg

theorem handedBy_none (h : Delivered hash s) : handedBy s s.made.length = [] := by
  have hno : s.handed.filter (·.stream == s.made.length) = [] := by
    refine List.filter_eq_nil_iff.mpr fun x hx => ?_
    have := h.handed x hx
    simp only [beq_iff_eq]; omega
  rw [handedBy, hno]; rfl

theorem writtenTo_none (hi : Inv hash s) : writtenTo s s.made.length = [] := by
  have hno : s.writes.filter (·.stream == s.made.length) = [] := by
    refine List.filter_eq_nil_iff.mpr fun w hw => ?_
    obtain ⟨f, hf, -⟩ := hi.writes w hw
    have := (List.getElem?_eq_some_iff.mp hf).1
    simp only [beq_iff_eq]; omega
  rw [writtenTo, hno]; rfl

theorem Delivered.openStream (h : Delivered hash s) (hi : Inv hash s) (f : Flow) :
    Delivered hash (openStream hash s f) := by
  cases hk : s.streamStore.lookup (f.key hash) with
  | some e => rw [openStream_found hk]; exact h
  | none =>
    obtain ⟨act, hg, -, -, -, -, -⟩ := hi.gwStream f.server
    rw [openStream_new hk, hg]
    refine ⟨fun k e he => ?_, fun x hx => ?_, fun x hx k e he hid => ?_, fun g f' hg' hr => ?_⟩
    · rcases lookup_insert_cases he with ⟨rfl, rfl⟩ | ⟨-, he⟩
      · show handedBy s s.made.length ++ [] = writtenTo s s.made.length
        rw [handedBy_none h, writtenTo_none hi]; rfl
      · exact h.data k e he
    · have := h.handed x hx
      simp only [List.length_append, List.length_singleton]; omega
    · rcases lookup_insert_cases he with ⟨rfl, rfl⟩ | ⟨-, he⟩
      · have := h.handed x hx
        simp only at hid; omega
      · exact h.serverStream x hx k e he hid
    · by_cases hlt : g < s.made.length
      · simp only [List.getElem?_append_left hlt] at hg'
        obtain ⟨e, he, hid⟩ := h.stored g f' hg' hr
        have hne : f'.key hash ≠ f.key hash := by
          intro hkk
          rw [hkk, hk] at he
          cases he
        exact ⟨e, (AList.lookup_insert_ne hne).trans he, hid⟩
      · simp only [List.getElem?_append_right (Nat.le_of_not_lt hlt)] at hg'
        obtain ⟨rfl, hgl⟩ : f = f' ∧ g - s.made.length = 0 := by
          cases hsub : g - s.made.length with
          | zero => rw [hsub] at hg'; exact ⟨Option.some.inj hg', rfl⟩
          | succ n => rw [hsub] at hg'; cases hg'
        exact ⟨_, AList.lookup_insert _, by simp only; omega⟩

theorem Delivered.write (h : Delivered hash s) (hi : Inv hash s) (hk : s.streamStore.lookup (f.key hash) = some e)
    (d : DataBuffer) : Delivered hash (write hash s f d) := by
  rw [write_stored hk]
  refine ⟨fun k' e' hk' => ?_, h.handed, fun x hx k' e' hk' hid => ?_, fun g f' hg hr => ?_⟩
  · rcases lookup_insert_cases hk' with ⟨rfl, rfl⟩ | ⟨hne, hk'⟩
    · have := h.data _ e hk
      simp only [handedBy, writtenTo, List.filter_append, List.map_append] at this ⊢
      rw [← List.append_assoc, this]
      simp
    · have hother : e.stream.id ≠ e'.stream.id := fun heq => hne (hi.key_unique hk' hk heq.symm)
      have := h.data k' e' hk'
      simp only [handedBy, writtenTo, List.filter_append, List.map_append] at this ⊢
      rw [this]
      simp [hother]
  · rcases lookup_insert_cases hk' with ⟨rfl, rfl⟩ | ⟨-, hk'⟩
    · exact h.serverStream x hx _ e hk hid
    · exact h.serverStream x hx k' e' hk' hid
  · exact stored_insert hk rfl (h.stored g f' hg hr)

theorem Delivered.input (h : Delivered hash s) (hi : Inv hash s) (d : UInt8) (calls : List Call) :
    Delivered hash (input hash d s calls) := by
  unfold Port.input
  induction calls generalizing s with
  | nil => exact h
  | cons c calls ih =>
    obtain ⟨e, he, -⟩ := openStream_lookup hash s (c.flow d)
    exact ih ((h.openStream hi _).write (hi.openStream _) he c.data) (hi.api d c)

/-- The manager's state is not its business. -/
theorem Delivered.mgr (h : Delivered hash s) (m : Manager) : Delivered hash { s with mgr := m } :=
  ⟨h.data, h.handed, h.serverStream, h.stored⟩

theorem Delivered.erases (h : Delivered hash s) (he : Erases s t) : Delivered hash t := by
  have hf := he.frame
  constructor
  · intro k e hk
    have := h.data k e (he.sub k e hk)
    rw [hf]; exact this
  · rw [hf]; exact h.handed
  · intro x hx k e hk hid
    rw [hf] at hx
    exact h.serverStream x hx k e (he.sub k e hk) hid
  · intro g f hg hr
    have hg' : s.made[g]? = some f := by rw [hf] at hg; exact hg
    obtain ⟨e, hk, hid⟩ := h.stored g f hg' fun hm => hr (he.reported _ hm)
    rcases he.erased _ e hk with hk' | ⟨-, -, hrep⟩
    · exact ⟨e, hk', hid⟩
    · exact absurd hrep hr

/-- A stream that is tied only now has handed on nothing. -/
theorem Delivered.tie (h : Delivered hash s) (hk : s.streamStore.lookup k = some e)
    (hn : e.stream.serverStream = none) (m : Manager) (x : Nat) : Delivered hash (tie { s with mgr := m } k e x) := by
  refine ⟨fun k' e' hk' => ?_, h.handed, fun y hy k' e' hk' hid => ?_, fun g f hg hr => ?_⟩
  · rcases lookup_insert_cases hk' with ⟨rfl, rfl⟩ | ⟨-, hk'⟩
    · exact h.data k' e hk
    · exact h.data k' e' hk'
  · rcases lookup_insert_cases hk' with ⟨rfl, rfl⟩ | ⟨-, hk'⟩
    · have := h.serverStream y hy k' e hk hid
      rw [hn] at this; cases this
    · exact h.serverStream y hy k' e' hk' hid
  · exact stored_insert hk rfl (h.stored g f hg hr)

/-- Handing on takes the first data of the buffer. -/
theorem Delivered.forward (h : Delivered hash s) (hi : Inv hash s) (n : Nat) {x : Nat}
    (hk : s.streamStore.lookup k = some e) (hx : e.stream.serverStream = some x) :
    Delivered hash { s with
      streamStore := s.streamStore.insert k { e with stream := { e.stream with buffer := e.stream.buffer.drop n } }
      handed := s.handed ++ (e.stream.buffer.take n).map fun d => ⟨e.stream.id, x, d⟩ } := by
  refine ⟨fun k' e' hk' => ?_, fun y hy => ?_, fun y hy k' e' hk' hid => ?_, fun g f hg hr => ?_⟩
  · rcases lookup_insert_cases hk' with ⟨rfl, rfl⟩ | ⟨hne, hk'⟩
    · have hd := h.data k' e hk
      simp only [handedBy, writtenTo, List.filter_append, List.map_append] at hd ⊢
      rw [← hd, List.append_assoc]
      congr 1
      have hall : (((e.stream.buffer.take n).map fun d => (⟨e.stream.id, x, d⟩ : Handed)).filter
          (·.stream == e.stream.id)) = (e.stream.buffer.take n).map fun d => ⟨e.stream.id, x, d⟩ := by
        refine List.filter_eq_self.mpr fun y hy => ?_
        obtain ⟨d, -, rfl⟩ := List.mem_map.mp hy
        simp
      rw [hall, List.map_map]
      exact (congrArg (· ++ _) (List.map_id _)).trans (List.take_append_drop n _)
    · have hother : e.stream.id ≠ e'.stream.id := fun heq => hne (hi.key_unique hk' hk heq.symm)
      have hnone : (((e.stream.buffer.take n).map fun d => (⟨e.stream.id, x, d⟩ : Handed)).filter
          (·.stream == e'.stream.id)) = [] := by
        refine List.filter_eq_nil_iff.mpr fun y hy => ?_
        obtain ⟨d, -, rfl⟩ := List.mem_map.mp hy
        simp [hother]
      have hd := h.data k' e' hk'
      simp only [handedBy, writtenTo, List.filter_append, List.map_append] at hd ⊢
      rw [hnone, List.map_nil, List.append_nil]
      exact hd
  · rcases List.mem_append.mp hy with hy | hy
    · exact h.handed y hy
    · obtain ⟨d, -, rfl⟩ := List.mem_map.mp hy
      exact hi.made_lt hk
  · rcases List.mem_append.mp hy with hold | hy
    · rcases lookup_insert_cases hk' with ⟨rfl, rfl⟩ | ⟨-, hk'⟩
      · exact h.serverStream y hold k' e hk hid
      · exact h.serverStream y hold k' e' hk' hid
    · obtain ⟨d, -, rfl⟩ := List.mem_map.mp hy
      rcases lookup_insert_cases hk' with ⟨rfl, rfl⟩ | ⟨hne, hk'⟩
      · exact hx
      · exact absurd (hi.key_unique hk' hk hid) hne
  · exact stored_insert hk rfl (h.stored g f hg hr)

theorem Delivered.step {ev : Ev} (h : Delivered hash s) (hi : Inv hash s) (hs : step hash s ev = some t) :
    Delivered hash t := by
  cases step_moved hi hs with
  | input d calls => exact h.input hi d calls
  | turn _ _ _ _ => exact h.mgr _
  | tie _ hk _ hn _ _ => exact h.tie hk hn _ _
  | link _ _ => exact (h.mgr _).erases (linkUpdate_erases s _ _)
  | streamUpdate _ => exact h.erases (erases_emitUpdate s _)
  | forward n hk hx => exact h.forward hi n hk hx
  | packet _ _ => exact ⟨h.data, h.handed, h.serverStream, h.stored⟩

/-! ## One flow -/

/-- The calls of a run, by what was written. -/
theorem mem_requests {known : List Server} {es : List Ev} (h : exec (step hash) (init known) es = some s)
    (f : Flow) : (∃ w ∈ s.writes, w.flow = f) ↔ ∃ p ∈ es.flatMap requests, p.1 = f := by
  rw [← requests_written h]
  constructor
  · intro ⟨w, hw, hf⟩; exact ⟨_, List.mem_map_of_mem hw, hf⟩
  · intro ⟨p, hp, hf⟩
    obtain ⟨w, hw, rfl⟩ := List.mem_map.mp hp
    exact ⟨w, hw, hf⟩

theorem sent_eq {known : List Server} {es : List Ev} (h : exec (step hash) (init known) es = some s) (f : Flow) :
    sent f es = (s.writes.filter (·.flow = f)).map (·.data) := by
  rw [sent, ← requests_written h, List.filter_map, List.map_map]
  rfl

/-- Flows of one client with one key that were both called are one flow. -/
theorem Distinct.eq {known : List Server} {es : List Ev} (hd : Distinct hash f es)
    (h : exec (step hash) (init known) es = some s) {f₁ f₂ : Flow} (h₁ : ∃ w ∈ s.writes, w.flow = f₁)
    (h₂ : ∃ w ∈ s.writes, w.flow = f₂) (hk₁ : f₁.key hash = f.key hash) (hk₂ : f₂.key hash = f.key hash) : f₁ = f₂ := by
  obtain ⟨p, hp, rfl⟩ := (mem_requests h f₁).mp h₁
  obtain ⟨q, hq, rfl⟩ := (mem_requests h f₂).mp h₂
  have hp' := hk₁
  have hq' := hk₂
  simp only [Flow.key, Key.mk.injEq] at hp' hq'
  refine Flow.eq_of_key (hk₁.trans hk₂.symm) ?_
  exact hd p hp q hq hp'.1 hp'.2.1 hq'.1 hq'.2.1 (hp'.2.2.trans hq'.2.2.symm)

/-- The stored stream is the only one made for its flow. -/
theorem Delivered.made_iff (h : Delivered hash s) (hr : f.key hash ∉ s.reported)
    (he : s.streamStore.lookup (f.key hash) = some e) (hf : s.made[e.stream.id]? = some f) (g : Nat) :
    s.made[g]? = some f ↔ g = e.stream.id := by
  constructor
  · intro hg
    obtain ⟨e', he', rfl⟩ := h.stored g f hg hr
    rw [he] at he'
    cases he'; rfl
  · intro hg
    rw [hg]; exact hf

/-- What its flow wrote, and nothing else, went to the stored stream. -/
theorem write_iff {known : List Server} {es : List Ev} (h : Delivered hash s) (hi : Inv hash s)
    (htold : Told s) (hx : exec (step hash) (init known) es = some s) (hd : Distinct hash f es)
    (hr : f.key hash ∉ s.reported) (he : s.streamStore.lookup (f.key hash) = some e)
    (hf : s.made[e.stream.id]? = some f) {w : Write} (hw : w ∈ s.writes) : w.flow = f ↔ w.stream = e.stream.id := by
  obtain ⟨f', hf', hkf⟩ := hi.writes w hw
  constructor
  · intro hwf
    rw [hwf] at hkf
    obtain ⟨e', he', hid⟩ := h.stored w.stream f' hf' (by rw [hkf]; exact hr)
    rw [hkf, he] at he'
    cases he'
    exact hid.symm
  · intro hws
    rw [hws, hf] at hf'
    cases hf'
    exact hd.eq hx ⟨w, hw, rfl⟩ (htold.called f (List.mem_of_getElem? hf)) hkf.symm rfl

/-- A flow that no stream was made for has sent nothing. -/
theorem sent_nothing {known : List Server} {es : List Ev} (hi : Inv hash s) (htold : Told s)
    (hx : exec (step hash) (init known) es = some s) (hd : Distinct hash f es) (hm : f ∉ s.made) :
    s.writes.filter (·.flow = f) = [] := by
  refine List.filter_eq_nil_iff.mpr fun w hw hwf => ?_
  have hwf : w.flow = f := by simpa using hwf
  obtain ⟨f', hf', hkf⟩ := hi.writes w hw
  have hmem : f' ∈ s.made := List.mem_of_getElem? hf'
  rw [hwf] at hkf
  rw [hd.eq hx (htold.called f' hmem) ⟨w, hw, hwf⟩ hkf rfl] at hmem
  exact hm hmem

/-- Nothing is handed on or held for a flow that no stream was made for. -/
theorem handed_nothing (hi : Inv hash s) (hm : f ∉ s.made) : handedOn s f = [] ∧ held hash s f = [] := by
  constructor
  · refine List.filter_eq_nil_iff.mpr fun x _ hx => hm ?_
    exact List.mem_of_getElem? (by simpa using hx)
  · unfold held
    split
    · next e he =>
      rw [if_neg]
      intro hsv
      obtain ⟨f', hf', hkf, hsf⟩ := hi.entry _ e he
      obtain rfl := Flow.eq_of_key hkf (hsf.trans hsv)
      exact hm (List.mem_of_getElem? hf')
    · rfl

/-- Everything a flow sent was handed to its server stream or is held, once and in order,
    as long as its stream reports no link error. -/
theorem delivery_exact {known : List Server} {es : List Ev} (h : exec (step hash) (init known) es = some s)
    (hd : Distinct hash f es) (hr : f.key hash ∉ s.reported) :
    (handedOn s f).map (·.data) ++ held hash s f = sent f es ∧
      ∀ x ∈ handedOn s f, s.mgr.madeFor x.serverStream = some f.server ∧
        ∃ e, s.streamStore.lookup (f.key hash) = some e ∧ e.stream.serverStream = some x.serverStream := by
  obtain ⟨hi, hdel, htold⟩ : Inv hash s ∧ Delivered hash s ∧ Told s :=
    invariant (I := fun s => Inv hash s ∧ Delivered hash s ∧ Told s)
      (fun _ _ _ ⟨hi, hdel, htold⟩ hs => ⟨step_inv hi hs, hdel.step hi hs, htold.step hi hs⟩)
      ⟨init_inv known, init_delivered known, init_told known⟩ h
  rw [sent_eq h]
  by_cases hm : f ∈ s.made
  · obtain ⟨g, hg⟩ := List.mem_iff_getElem?.mp hm
    obtain ⟨e, he, rfl⟩ := hdel.stored g f hg hr
    obtain ⟨f₀, hf₀, -, hsv⟩ := hi.entry _ e he
    rw [hg] at hf₀
    cases hf₀
    have hhanded : handedOn s f = s.handed.filter (·.stream == e.stream.id) := by
      refine List.filter_congr fun x _ => ?_
      rw [Bool.eq_iff_iff, decide_eq_true_eq, beq_iff_eq]
      exact hdel.made_iff hr he hg x.stream
    have hwritten : s.writes.filter (·.flow = f) = s.writes.filter (·.stream == e.stream.id) := by
      refine List.filter_congr fun w hw => ?_
      rw [Bool.eq_iff_iff, decide_eq_true_eq, beq_iff_eq]
      exact write_iff hdel hi htold h hd hr he hg hw
    have hheld : held hash s f = e.stream.buffer := by
      unfold held
      simp only [he, hsv, if_true]
    rw [hhanded, hwritten, hheld]
    refine ⟨hdel.data _ e he, fun x hx => ?_⟩
    obtain ⟨hx, hid⟩ := List.mem_filter.mp hx
    have hst := hdel.serverStream x hx _ e he (beq_iff_eq.mp hid).symm
    exact ⟨by rw [hi.madeFor _ e _ he hst, hsv], e, he, hst⟩
  · obtain ⟨hn, hh⟩ := handed_nothing hi hm
    rw [hn, hh, sent_nothing hi htold h hd hm]
    exact ⟨rfl, fun x hx => absurd hx List.not_mem_nil⟩

/-- A call before the resolution and one after it, with the first one handed on. -/
theorem delivery_exact_once :
    let f : Flow := ⟨1, 1, .id 5⟩
    let es := [Ev.input 1 [.toServerId 1 5 [10]], .update 0, .update 0, .input 1 [.toServerId 1 5 [20]],
      .forward ⟨1, 1, 5⟩ 1]
    ∃ s, exec (step fun _ => 0) (init [⟨5, []⟩]) es = some s ∧
      (handedOn s f).map (·.data) ++ held (fun _ => 0) s f = [[10], [20]] := by
  intro f es
  refine ⟨_, rfl, ?_⟩
  exact (@delivery_exact (fun _ => 0) _ f [⟨5, []⟩] es rfl (by decide) (by decide)).1

end AetherGateway.Port
