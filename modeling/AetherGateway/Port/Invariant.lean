/-
  AetherGateway.Port.Invariant — what holds in every run of `AetherGateway.Port.LocalPort`.

  - `Inv`: an entry's key and server are those of the flow its stream was made for; the
    stream has one data and one update subscription, under that key; the ties name exactly
    the server streams of the stored streams, one tie for each stream; a stored stream's
    server stream was made for the entry's server; action `i` is the one of `GwStream` `i`,
    and while it is pending that stream is stored and not tied.
  - `Erases`: what events of the streams do to the port: they remove entries whose stream
    is in `linkError` and report their keys, and nothing else.
  - `step_moved`: what each step does (`Moved`), once; later invariants go by its cases.
  - `step_inv`: every step keeps `Inv`.
-/

import AetherGateway.Port.LocalPort

namespace AetherGateway.Port

open AetherGateway.Streams AetherGateway.Runs

variable {hash : ServerEndpoints → UInt64} {s t u : St} {k k' : Key} {e : StreamStore}

/-! ## The store -/

theorem lookup_insert_if {β : Type} (k k' : Key) (b : β) (m : AList fun _ : Key => β) :
    (m.insert k b).lookup k' = if k' = k then some b else m.lookup k' := by
  split
  · next h => rw [h]; exact AList.lookup_insert m
  · next h => exact AList.lookup_insert_ne h

theorem lookup_insert_cases {β : Type} {k k' : Key} {b b' : β} {m : AList fun _ : Key => β}
    (h : (m.insert k b).lookup k' = some b') : k' = k ∧ b' = b ∨ k' ≠ k ∧ m.lookup k' = some b' := by
  rw [lookup_insert_if] at h
  split at h
  · next hk => exact Or.inl ⟨hk, (Option.some.inj h).symm⟩
  · next hk => exact Or.inr ⟨hk, h⟩

/-- Replacing an entry by one of the same stream loses no stored stream. -/
theorem stored_insert {m : AList fun _ : Key => StreamStore} {e b : StreamStore} {g : Nat} (hk : m.lookup k = some e)
    (hb : b.stream.id = e.stream.id) (h : ∃ e', m.lookup k' = some e' ∧ e'.stream.id = g) :
    ∃ e', (m.insert k b).lookup k' = some e' ∧ e'.stream.id = g := by
  obtain ⟨e', he', hid⟩ := h
  rw [lookup_insert_if]
  split
  · next hkk =>
    rw [hkk, hk] at he'
    cases he'
    exact ⟨b, rfl, hb.trans hid⟩
  · exact ⟨e', he', hid⟩

theorem lookup_erase_if {β : Type} (k k' : Key) (m : AList fun _ : Key => β) :
    (m.erase k).lookup k' = if k' = k then none else m.lookup k' := by
  split
  · next h => rw [h]; exact AList.lookup_erase k m
  · next h => exact AList.lookup_erase_ne h

theorem any_entries_iff {β : Type} {m : AList fun _ : Key => β} {p : β → Bool} :
    (m.entries.any fun q => p q.2) = true ↔ ∃ k e, m.lookup k = some e ∧ p e = true := by
  rw [List.any_eq_true]
  constructor
  · rintro ⟨⟨k, e⟩, hm, h⟩; exact ⟨k, e, AList.mem_lookup_iff.mpr hm, h⟩
  · rintro ⟨k, e, hm, h⟩; exact ⟨⟨k, e⟩, AList.mem_lookup_iff.mp hm, h⟩

theorem heldByEntry_iff {x : Nat} :
    heldByEntry s x = true ↔ ∃ k e, s.streamStore.lookup k = some e ∧ e.stream.serverStream = some x := by
  unfold heldByEntry
  rw [any_entries_iff (p := fun e : StreamStore => e.stream.serverStream == some x)]
  simp only [beq_iff_eq]

theorem gwAlive_iff {g : Nat} : gwAlive s g = true ↔ ∃ k e, s.streamStore.lookup k = some e ∧ e.stream.id = g := by
  unfold gwAlive
  rw [any_entries_iff (p := fun e : StreamStore => e.stream.id == g)]
  simp only [beq_iff_eq]

theorem alive_iff {x : Nat} :
    alive s x = true ↔ (∃ a act, s.mgr.action? a = some act ∧ act.stream = some x) ∨
      ∃ k e, s.streamStore.lookup k = some e ∧ e.stream.serverStream = some x := by
  unfold alive
  rw [Bool.or_eq_true, Manager.heldByAction_iff, heldByEntry_iff]

/-! ## The invariant -/

structure Inv (hash : ServerEndpoints → UInt64) (s : St) : Prop where
  mgr : s.mgr.Inv
  length : s.mgr.actions.length = s.made.length
  outSubs : ∀ g, s.outDataSubs.filter (·.1 == g) = (s.made[g]?).toList.map fun f => (g, f.key hash)
  updateSubs : ∀ g, s.updateStreamSubs.filter (·.1 == g) = (s.made[g]?).toList.map fun f => (g, f.key hash)
  entry : ∀ k e, s.streamStore.lookup k = some e →
    ∃ f, s.made[e.stream.id]? = some f ∧ f.key hash = k ∧ f.server = e.server
  sub : ∀ k e, s.streamStore.lookup k = some e → e.stream.getServerStreamSub = e.stream.id
  tied : ∀ k e x, s.streamStore.lookup k = some e → (e.stream.serverStream = some x ↔ (x, e.stream.id) ∈ s.ties)
  ties : (s.ties.map (·.2)).Nodup
  tiesMade : ∀ p ∈ s.ties, p.2 < s.made.length
  writes : ∀ w ∈ s.writes, ∃ f, s.made[w.stream]? = some f ∧ f.key hash = w.flow.key hash
  madeFor : ∀ k e x, s.streamStore.lookup k = some e → e.stream.serverStream = some x →
    s.mgr.madeFor x = some e.server
  /-- A pending action belongs to a stored stream that waits for it. -/
  pending : ∀ a act, s.mgr.action? a = some act → ∃ k e, s.streamStore.lookup k = some e ∧ e.stream.id = a ∧
    e.stream.serverStream = none ∧ s.mgr.Serves e.server act

theorem init_inv (known : List Server) : Inv hash (init known) where
  mgr := Manager.init_inv known
  length := rfl
  outSubs _ := rfl
  updateSubs _ := rfl
  entry k e h := by simp [init] at h
  sub k e h := by simp [init] at h
  tied k e x h := by simp [init] at h
  ties := List.nodup_nil
  tiesMade p hp := by cases hp
  writes w hw := by cases hw
  madeFor k e x h := by simp [init] at h
  pending a act h := by simp [init, Manager.init, Manager.action?] at h

namespace Inv

/-- A stream is stored under one key. -/
theorem key_unique (h : Inv hash s) {e' : StreamStore} (hk : s.streamStore.lookup k = some e)
    (hk' : s.streamStore.lookup k' = some e') (he : e.stream.id = e'.stream.id) : k = k' := by
  obtain ⟨f, hf, rfl, -⟩ := h.entry k e hk
  obtain ⟨f', hf', rfl, -⟩ := h.entry k' e' hk'
  rw [he, hf'] at hf
  cases hf; rfl

theorem made_lt (h : Inv hash s) (hk : s.streamStore.lookup k = some e) : e.stream.id < s.made.length := by
  obtain ⟨f, hf, -, -⟩ := h.entry k e hk
  exact (List.getElem?_eq_some_iff.mp hf).1

/-- A live server stream was made for some request. -/
theorem alive_madeFor (h : Inv hash s) {x : Nat} (hx : alive s x = true) : ∃ f, s.mgr.madeFor x = some f := by
  rcases alive_iff.mp hx with ⟨a, act, ha, hs⟩ | ⟨k, e, hk, hs⟩
  · obtain ⟨k, e, hk, -, -, hsv⟩ := h.pending a act ha
    exact ⟨e.server, hsv.stream (h.mgr.acts a act ha) hs⟩
  · exact ⟨e.server, h.madeFor k e x hk hs⟩

end Inv

/-! ## Events of the streams -/

/-- `t` is `s` without some entries whose stream is in `linkError`. -/
structure Erases (s t : St) : Prop where
  frame : t = { s with streamStore := t.streamStore, reported := t.reported }
  sub : ∀ k e, t.streamStore.lookup k = some e → s.streamStore.lookup k = some e
  erased : ∀ k e, s.streamStore.lookup k = some e → t.streamStore.lookup k = some e ∨
    (t.streamStore.lookup k = none ∧ gwLinkState s e.stream = .linkError ∧ k ∈ t.reported)
  reported : ∀ k ∈ s.reported, k ∈ t.reported
  gone : ∀ k ∈ t.reported, k ∈ s.reported ∨ t.streamStore.lookup k = none

theorem Erases.refl (s : St) : Erases s s :=
  ⟨rfl, fun _ _ h => h, fun _ _ h => Or.inl h, fun _ h => h, fun _ h => Or.inl h⟩

theorem Erases.mgr (h : Erases s t) : t.mgr = s.mgr := by rw [h.frame]

theorem Erases.linkState (h : Erases s t) (g : GwStream) : gwLinkState t g = gwLinkState s g := by
  unfold gwLinkState; rw [h.mgr]

/-- What is not stored stays so. -/
theorem Erases.none (h : Erases s t) (hn : s.streamStore.lookup k = none) : t.streamStore.lookup k = none := by
  cases ht : t.streamStore.lookup k with
  | none => rfl
  | some e =>
    have := h.sub k e ht
    rw [hn] at this
    cases this

theorem Erases.trans (h : Erases s t) (h' : Erases t u) : Erases s u := by
  refine ⟨?_, fun k e hk => h.sub k e (h'.sub k e hk), fun k e hk => ?_,
    fun k hk => h'.reported k (h.reported k hk), fun k hk => ?_⟩
  · rw [h'.frame, h.frame]
  · rcases h.erased k e hk with hk | ⟨hn, hl, hr⟩
    · rcases h'.erased k e hk with hk | ⟨hn, hl, hr⟩
      · exact Or.inl hk
      · exact Or.inr ⟨hn, by rw [← h.linkState]; exact hl, hr⟩
    · exact Or.inr ⟨h'.none hn, hl, h'.reported k hr⟩
  · rcases h'.gone k hk with hk | hn
    · exact (h.gone k hk).imp_right h'.none
    · exact Or.inr hn

theorem erases_streamState (s : St) (k : Key) : Erases s (streamState s k) := by
  unfold streamState
  split
  · exact .refl s
  · next e hk =>
    split
    · next hl =>
      refine ⟨rfl, fun k' e' h => ?_, fun k' e' h => ?_, fun k' h => List.mem_append_left _ h, fun k' h => ?_⟩
      · simp only [lookup_erase_if] at h
        split at h
        · cases h
        · exact h
      · simp only [lookup_erase_if]
        split
        · next he =>
          subst he
          obtain rfl := Option.some.inj (hk.symm.trans h)
          exact Or.inr ⟨rfl, hl, List.mem_append_right _ (List.mem_singleton.mpr rfl)⟩
        · exact Or.inl h
      · rcases List.mem_append.mp h with h | h
        · exact Or.inl h
        · rw [List.mem_singleton.mp h]
          exact Or.inr (AList.lookup_erase k s.streamStore)
    · exact .refl s

theorem erases_foldl {α : Type} (f : St → α → St) (hf : ∀ s a, Erases s (f s a)) :
    ∀ (l : List α) (s : St), Erases s (l.foldl f s) := by
  intro l
  induction l with
  | nil => intro s; exact .refl s
  | cons a l ih => intro s; exact (hf s a).trans (ih (f s a))

theorem erases_emitUpdate (s : St) (g : Nat) : Erases s (emitUpdate s g) := by
  unfold emitUpdate
  split
  · exact erases_foldl _ (fun s (sub : Nat × Key) => erases_streamState s sub.2) _ s
  · exact .refl s

/-- Removing failed entries keeps the invariant: a pending action's stream is not tied,
    so it cannot be in `linkError`. -/
theorem Inv.erases (h : Inv hash s) (he : Erases s t) : Inv hash t := by
  have hf := he.frame
  constructor
  · rw [he.mgr]; exact h.mgr
  · rw [hf]; exact h.length
  · rw [hf]; exact h.outSubs
  · rw [hf]; exact h.updateSubs
  · intro k e hk
    rw [hf]; exact h.entry k e (he.sub k e hk)
  · intro k e hk; exact h.sub k e (he.sub k e hk)
  · intro k e x hk
    rw [hf]; exact h.tied k e x (he.sub k e hk)
  · rw [hf]; exact h.ties
  · rw [hf]; exact h.tiesMade
  · rw [hf]; exact h.writes
  · intro k e x hk
    rw [he.mgr]; exact h.madeFor k e x (he.sub k e hk)
  · intro a act ha
    rw [he.mgr] at ha ⊢
    obtain ⟨k, e, hk, hid, hs, hsv⟩ := h.pending a act ha
    rcases he.erased k e hk with hk | ⟨-, hl, -⟩
    · exact ⟨k, e, hk, hid, hs, hsv⟩
    · simp [gwLinkState, hs] at hl

/-- A stored stream's update is handled once, under its own key. -/
theorem emitUpdate_eq (h : Inv hash s) (hk : s.streamStore.lookup k = some e) :
    emitUpdate s e.stream.id = streamState s k := by
  obtain ⟨f, hf, rfl, -⟩ := h.entry k e hk
  unfold emitUpdate
  rw [if_pos (gwAlive_iff.mpr ⟨_, e, hk, rfl⟩), h.updateSubs, hf]
  rfl

theorem linkUpdate_erases (s : St) (x : Nat) (st : LinkState) :
    Erases { s with mgr := s.mgr.setLinkState x st } (linkUpdate s x st) :=
  erases_foldl _ erases_emitUpdate _ _

/-! ## The steps keep the invariant -/

namespace Inv

/-- The buffers and the histories of the data are not its business. -/
theorem setBuffer (h : Inv hash s) (hk : s.streamStore.lookup k = some e) (b : List DataBuffer) {ws : List Write}
    (hw : ∀ w ∈ ws, ∃ f, s.made[w.stream]? = some f ∧ f.key hash = w.flow.key hash) (hs : List Handed) :
    Inv hash { s with
      streamStore := s.streamStore.insert k { e with stream := { e.stream with buffer := b } }
      writes := ws
      handed := hs } := by
  -- every stored entry is an old one up to its buffer
  have old : ∀ k' e', (s.streamStore.insert k { e with stream := { e.stream with buffer := b } }).lookup k' = some e' →
      ∃ e₀, s.streamStore.lookup k' = some e₀ ∧ e'.server = e₀.server ∧ e'.stream.id = e₀.stream.id ∧
        e'.stream.getServerStreamSub = e₀.stream.getServerStreamSub ∧
        e'.stream.serverStream = e₀.stream.serverStream := by
    intro k' e' h'
    rcases lookup_insert_cases h' with ⟨rfl, rfl⟩ | ⟨-, h'⟩
    · exact ⟨e, hk, rfl, rfl, rfl, rfl⟩
    · exact ⟨e', h', rfl, rfl, rfl, rfl⟩
  refine ⟨h.mgr, h.length, h.outSubs, h.updateSubs, ?_, ?_, ?_, h.ties, h.tiesMade, hw, ?_, ?_⟩
  · intro k' e' h'
    obtain ⟨e₀, h₀, hsv, hid, -, -⟩ := old k' e' h'
    rw [hsv, hid]; exact h.entry k' e₀ h₀
  · intro k' e' h'
    obtain ⟨e₀, h₀, -, hid, hsub, -⟩ := old k' e' h'
    rw [hid, hsub]; exact h.sub k' e₀ h₀
  · intro k' e' x h'
    obtain ⟨e₀, h₀, -, hid, -, hst⟩ := old k' e' h'
    rw [hid, hst]; exact h.tied k' e₀ x h₀
  · intro k' e' x h' hx
    obtain ⟨e₀, h₀, hsv, -, -, hst⟩ := old k' e' h'
    rw [hsv]; exact h.madeFor k' e₀ x h₀ (by rw [← hst]; exact hx)
  · intro a act ha
    obtain ⟨k', e', h', hid, hst, hsv⟩ := h.pending a act ha
    by_cases hkk : k' = k
    · subst hkk
      obtain rfl := Option.some.inj (hk.symm.trans h')
      exact ⟨k', _, AList.lookup_insert _, hid, hst, hsv⟩
    · exact ⟨k', e', (AList.lookup_insert_ne hkk).trans h', hid, hst, hsv⟩

theorem setLinkState (h : Inv hash s) (x : Nat) (st : LinkState) :
    Inv hash { s with mgr := s.mgr.setLinkState x st } := by
  refine ⟨h.mgr.setLinkState x st, h.length, h.outSubs, h.updateSubs, h.entry, h.sub, h.tied, h.ties, h.tiesMade,
    h.writes, ?_, ?_⟩
  · intro k e y hk hy
    show (s.mgr.setLinkState x st).madeFor y = _
    rw [Manager.madeFor_setLinkState]; exact h.madeFor k e y hk hy
  · intro a act ha
    obtain ⟨k, e, hk, hid, hs, hsv⟩ := h.pending a act ha
    exact ⟨k, e, hk, hid, hs, hsv.mono fun y f hf => by rw [Manager.madeFor_setLinkState]; exact hf⟩

/-- An action's turn that does not end it with a result. -/
theorem turn (h : Inv hash s) {a : Nat} {act : StreamGetAction} {m : Manager} (ha : s.mgr.action? a = some act)
    (hm : m.Inv) (ht : s.mgr.Turn a act m) : Inv hash { s with mgr := m } := by
  refine ⟨hm, ?_, h.outSubs, h.updateSubs, h.entry, h.sub, h.tied, h.ties, h.tiesMade, h.writes, ?_, ?_⟩
  · rw [← h.length]; exact ht.length
  · intro k e x hk hx; exact ht.made x _ (h.madeFor k e x hk hx)
  · intro b act' hb
    obtain ⟨act₀, h₀, hsv⟩ := ht.serves ha hb
    obtain ⟨k, e, hk, hid, hs, hsv₀⟩ := h.pending b act₀ h₀
    exact ⟨k, e, hk, hid, hs, hsv _ hsv₀⟩

/-- The stream that waits for a pending action is its subscriber. -/
theorem subscriber (h : Inv hash s) {a : Nat} {act : StreamGetAction} (ha : s.mgr.action? a = some act) :
    ∃ k e, subscriber s a = some (k, e) ∧ s.streamStore.lookup k = some e ∧ e.stream.id = a ∧
      e.stream.serverStream = none ∧ s.mgr.Serves e.server act := by
  obtain ⟨k, e, hk, hid, hs, hsv⟩ := h.pending a act ha
  refine ⟨k, e, ?_, hk, hid, hs, hsv⟩
  unfold Port.subscriber
  cases hf : s.streamStore.entries.find? fun p => p.2.stream.getServerStreamSub == a with
  | none =>
    have hne := List.find?_eq_none.mp hf ⟨k, e⟩ (AList.mem_lookup_iff.mp hk)
    exact absurd (by rw [h.sub k e hk, hid]; simp) hne
  | some p =>
    obtain ⟨k', e'⟩ := p
    have hk' : s.streamStore.lookup k' = some e' := AList.mem_lookup_iff.mpr (List.mem_of_find?_eq_some hf)
    have hsub : e'.stream.getServerStreamSub = a := by simpa using List.find?_some hf
    rw [h.sub k' e' hk', ← hid] at hsub
    obtain rfl := h.key_unique hk' hk hsub
    obtain rfl := Option.some.inj (hk.symm.trans hk')
    rfl

/-- A stored stream without a server stream was never tied. -/
theorem untied (h : Inv hash s) (hk : s.streamStore.lookup k = some e) (hs : e.stream.serverStream = none) :
    e.stream.id ∉ s.ties.map (·.2) := by
  intro hm
  obtain ⟨⟨y, g⟩, hp, rfl⟩ := List.mem_map.mp hm
  have hy := (h.tied k e y hk).mpr hp
  rw [hs] at hy
  cases hy

/-- The result handler ties the stream that waited for the action to a server stream
    made for the entry's server. -/
theorem tie (h : Inv hash s) {a x : Nat} {act : StreamGetAction} (ha : s.mgr.action? a = some act)
    (hk : s.streamStore.lookup k = some e) (hid : e.stream.id = a) (hs : e.stream.serverStream = none)
    (hx : s.mgr.madeFor x = some e.server) : Inv hash (tie { s with mgr := s.mgr.endAction a } k e x) where
  mgr := h.mgr.endAction ha
  length := by
    simp only [Port.tie, Manager.endAction, List.length_set]
    exact h.length
  outSubs := h.outSubs
  updateSubs := h.updateSubs
  entry k' e' h' := by
    rcases lookup_insert_cases h' with ⟨rfl, rfl⟩ | ⟨-, h'⟩
    · exact h.entry k' e hk
    · exact h.entry k' e' h'
  sub k' e' h' := by
    rcases lookup_insert_cases h' with ⟨rfl, rfl⟩ | ⟨-, h'⟩
    · exact h.sub k' e hk
    · exact h.sub k' e' h'
  tied k' e' y h' := by
    simp only [Port.tie, List.mem_append, List.mem_singleton, Prod.mk.injEq]
    rcases lookup_insert_cases h' with ⟨rfl, rfl⟩ | ⟨hkk, h'⟩
    · simp only [Option.some.injEq, and_true]
      refine ⟨fun hy => Or.inr hy.symm, fun hy => ?_⟩
      rcases hy with hy | hy
      · exact absurd (List.mem_map.mpr ⟨_, hy, rfl⟩) (h.untied hk hs)
      · exact hy.symm
    · rw [h.tied k' e' y h']
      refine ⟨Or.inl, fun hy => ?_⟩
      rcases hy with hy | ⟨-, hy⟩
      · exact hy
      · exact absurd (h.key_unique h' hk hy) hkk
  ties := by
    simp only [Port.tie, List.map_append, List.map_cons, List.map_nil]
    refine List.nodup_append.mpr ⟨h.ties, List.nodup_singleton _, fun g hg g' hg' e => ?_⟩
    rw [e, List.mem_singleton.mp hg'] at hg
    exact h.untied hk hs hg
  tiesMade p hp := by
    rcases List.mem_append.mp hp with hp | hp
    · exact h.tiesMade p hp
    · rw [List.mem_singleton.mp hp]
      exact h.made_lt hk
  writes := h.writes
  madeFor k' e' y h' hy := by
    rcases lookup_insert_cases h' with ⟨rfl, rfl⟩ | ⟨-, h'⟩
    · cases hy
      exact hx
    · exact h.madeFor k' e' y h' hy
  pending b act' hb := by
    simp only [Port.tie, Manager.action?_endAction ha] at hb
    split at hb
    · cases hb
    · next hba =>
      obtain ⟨k', e', h', hid', hs', hsv⟩ := h.pending b act' hb
      have hne : k' ≠ k := by
        intro hkk
        rw [hkk, hk] at h'
        cases h'
        exact hba (hid'.symm.trans hid)
      exact ⟨k', e', (AList.lookup_insert_ne hne).trans h', hid', hs', hsv⟩

end Inv

/-- The constructor of a `GwStream` pushes one action, which serves the stream. -/
theorem Inv.gwStream (h : Inv hash s) (server : ServeKind) :
    ∃ act, (gwStream s server).2 = ⟨s.made.length, server, s.made.length, none, []⟩ ∧ (gwStream s server).1.Inv ∧
      (∀ b, (gwStream s server).1.action? b = if b = s.made.length then some act else s.mgr.action? b) ∧
      (gwStream s server).1.Serves server act ∧
      (gwStream s server).1.actions.length = s.made.length + 1 ∧
      ∀ x f, s.mgr.madeFor x = some f → (gwStream s server).1.madeFor x = some f := by
  cases server with
  | id i =>
    obtain ⟨act, hact, hsv, hlen, hmade⟩ := h.mgr.getStream_pushes (alive s) i true
    rw [h.length] at hact hlen
    have hid : (s.mgr.getStream (alive s) i true).2 = s.made.length := by rw [Manager.getStream_snd, h.length]
    refine ⟨act, ?_, h.mgr.getStream (alive s) i true, hact, hsv, hlen, hmade⟩
    show (⟨s.made.length, .id i, (s.mgr.getStream (alive s) i true).2, none, []⟩ : GwStream) = _
    rw [hid]
  | endpoints e =>
    obtain ⟨act, hact, hsv, hlen, hmade⟩ := Manager.getStreamTo_pushes s.mgr e
    rw [h.length] at hact hlen
    have hid : (s.mgr.getStreamTo e).2 = s.made.length := by rw [Manager.getStreamTo_snd, h.length]
    refine ⟨act, ?_, h.mgr.getStreamTo e, hact, hsv, hlen, hmade⟩
    show (⟨s.made.length, .endpoints e, (s.mgr.getStreamTo e).2, none, []⟩ : GwStream) = _
    rw [hid]

theorem filter_snoc {l : List (Nat × Key)} {made : List Flow} {f : Flow}
    (h : ∀ g, l.filter (·.1 == g) = (made[g]?).toList.map fun f => (g, f.key hash)) (g : Nat) :
    (l ++ [(made.length, f.key hash)]).filter (·.1 == g) = ((made ++ [f])[g]?).toList.map fun f => (g, f.key hash) := by
  rw [List.filter_append, h]
  rcases Nat.lt_trichotomy g made.length with hg | hg | hg
  · rw [List.getElem?_append_left hg, List.filter_cons_of_neg (by simp; omega)]
    simp
  · subst hg; simp
  · rw [List.getElem?_eq_none (by omega), List.getElem?_eq_none (by simp; omega),
      List.filter_cons_of_neg (by simp; omega)]
    simp

theorem openStream_found {f : Flow} (hk : s.streamStore.lookup (f.key hash) = some e) : openStream hash s f = s := by
  unfold openStream; rw [hk]

/-- The flow that `made` records is the one the stream is constructed for. -/
theorem openStream_new {f : Flow} (hk : s.streamStore.lookup (f.key hash) = none) :
    openStream hash s f = { s with
      mgr := (gwStream s f.server).1
      streamStore := s.streamStore.insert (f.key hash) ⟨f.server, (gwStream s f.server).2⟩
      outDataSubs := s.outDataSubs ++ [((gwStream s f.server).2.id, f.key hash)]
      updateStreamSubs := s.updateStreamSubs ++ [((gwStream s f.server).2.id, f.key hash)]
      made := s.made ++ [f] } := by
  unfold openStream; rw [hk]; rfl

namespace Inv

theorem openStream (h : Inv hash s) (f : Flow) : Inv hash (openStream hash s f) := by
  cases hk : s.streamStore.lookup (f.key hash) with
  | some e => rw [openStream_found hk]; exact h
  | none =>
    obtain ⟨act, hg, hm, hact, hsv, hlen, hmade⟩ := h.gwStream f.server
    rw [openStream_new hk, hg]
    refine ⟨hm, ?_, filter_snoc h.outSubs, filter_snoc h.updateSubs, ?_, ?_, ?_, h.ties, ?_, ?_, ?_, ?_⟩
    · simp [hlen]
    · intro k e he
      rcases lookup_insert_cases he with ⟨rfl, rfl⟩ | ⟨-, he⟩
      · exact ⟨f, by simp, rfl, rfl⟩
      · obtain ⟨f', hf, hkf, hsf⟩ := h.entry k e he
        exact ⟨f', by simp only [List.getElem?_append_left (List.getElem?_eq_some_iff.mp hf).1, hf], hkf, hsf⟩
    · intro k e he
      rcases lookup_insert_cases he with ⟨rfl, rfl⟩ | ⟨-, he⟩
      · rfl
      · exact h.sub k e he
    · intro k e x he
      rcases lookup_insert_cases he with ⟨rfl, rfl⟩ | ⟨-, he⟩
      · -- nothing is tied to a stream that was not made before
        refine ⟨fun hx => (by cases hx), fun hx => ?_⟩
        exact absurd (h.tiesMade _ hx) (Nat.lt_irrefl _)
      · exact h.tied k e x he
    · intro p hp
      have := h.tiesMade p hp
      simp only [List.length_append, List.length_singleton]; omega
    · intro w hw
      obtain ⟨f', hf, hkf⟩ := h.writes w hw
      exact ⟨f', by simp only [List.getElem?_append_left (List.getElem?_eq_some_iff.mp hf).1, hf], hkf⟩
    · intro k e x he hx
      rcases lookup_insert_cases he with ⟨rfl, rfl⟩ | ⟨-, he⟩
      · cases hx
      · exact hmade x _ (h.madeFor k e x he hx)
    · intro a act' ha
      simp only [hact] at ha
      split at ha
      · next hal =>
        cases ha
        exact ⟨f.key hash, _, AList.lookup_insert _, hal.symm, rfl, hsv⟩
      · obtain ⟨k, e, he, hid, hs, hsv'⟩ := h.pending a act' ha
        have hne : k ≠ f.key hash := by
          intro hkk
          rw [hkk, hk] at he
          cases he
        exact ⟨k, e, (AList.lookup_insert_ne hne).trans he, hid, hs, hsv'.mono hmade⟩

theorem write (h : Inv hash s) (f : Flow) (d : DataBuffer) : Inv hash (write hash s f d) := by
  unfold Port.write
  split
  · next e hk =>
    refine h.setBuffer hk _ (fun w hw => ?_) _
    rcases List.mem_append.mp hw with hw | hw
    · exact h.writes w hw
    · rw [List.mem_singleton] at hw
      subst hw
      obtain ⟨f', hf, hkf, -⟩ := h.entry _ e hk
      exact ⟨f', hf, hkf⟩
  · exact h

theorem api (h : Inv hash s) (d : UInt8) (c : Call) : Inv hash (api hash d s c) := (h.openStream _).write _ _

theorem input (h : Inv hash s) (d : UInt8) (calls : List Call) : Inv hash (input hash d s calls) := by
  unfold Port.input
  induction calls generalizing s with
  | nil => exact h
  | cons c calls ih => exact ih (h.api d c)

/-- The turn of a pending action: a result ties the stream that waits for it. -/
theorem update_cases (h : Inv hash s) {a : Nat} {act : StreamGetAction} (ha : s.mgr.action? a = some act) :
    ((s.mgr.runAction a act).2 ≠ .result ∧ update s a act = some { s with mgr := (s.mgr.runAction a act).1 }) ∨
    ∃ k e x, (s.mgr.runAction a act).2 = .result ∧ s.streamStore.lookup k = some e ∧ e.stream.id = a ∧
      e.stream.serverStream = none ∧ act.stream = some x ∧ s.mgr.madeFor x = some e.server ∧
      update s a act = some (Port.tie { s with mgr := s.mgr.endAction a } k e x) := by
  unfold Port.update
  split
  · next m hr =>
    obtain ⟨k, e, hsub, hk, hid, hs, hsv⟩ := h.subscriber ha
    have hok := h.mgr.acts a act ha
    obtain ⟨x, hx⟩ := Manager.result_stream hok (by rw [hr])
    obtain rfl : s.mgr.endAction a = m := by rw [← Manager.runAction_result (by rw [hr]), hr]
    refine Or.inr ⟨k, e, x, by rw [hr], hk, hid, hs, hx, hsv.stream hok hx, ?_⟩
    simp only [hsub, hx, Option.map_some]
  · next m st hst hr => exact Or.inl ⟨by rw [hr]; exact fun e => hst (by rw [← e]), by rw [hr]⟩

end Inv

def TurnOf (s : St) (m : Manager) : Ev → Prop
  | .update a =>
    ∃ act, s.mgr.action? a = some act ∧ (s.mgr.runAction a act).2 ≠ .result ∧ m = (s.mgr.runAction a act).1
  | .servers a sds => s.mgr.onServers a sds = some m
  | .serversError a => s.mgr.onServersError a = some m
  | .serversStop a => s.mgr.onServersStop a = some m
  | _ => False

inductive Moved (hash : ServerEndpoints → UInt64) (s : St) : Ev → St → Prop where
  | input (d : UInt8) (calls : List Call) : Moved hash s (.input d calls) (input hash d s calls)
  /-- An action goes on, or ends without a result. -/
  | turn {ev : Ev} {a : Nat} {act : StreamGetAction} {m : Manager} (hs : TurnOf s m ev) (ha : s.mgr.action? a = some act)
      (hm : m.Inv) (ht : s.mgr.Turn a act m) : Moved hash s ev { s with mgr := m }
  | tie {a x : Nat} {act : StreamGetAction} {k : Key} {e : StreamStore} (ha : s.mgr.action? a = some act)
      (hk : s.streamStore.lookup k = some e) (hid : e.stream.id = a) (hn : e.stream.serverStream = none)
      (hact : act.stream = some x) (hx : s.mgr.madeFor x = some e.server) :
      Moved hash s (.update a) (tie { s with mgr := s.mgr.endAction a } k e x)
  | link {x : Nat} {st : LinkState} (ha : alive s x = true) (hl : s.mgr.linkState x = .linkError → st = .linkError) :
      Moved hash s (.link x st) (linkUpdate s x st)
  | streamUpdate {k : Key} {e : StreamStore} (hk : s.streamStore.lookup k = some e) :
      Moved hash s (.streamUpdate k) (emitUpdate s e.stream.id)
  | forward {k : Key} {e : StreamStore} {x : Nat} (n : Nat) (hk : s.streamStore.lookup k = some e)
      (hx : e.stream.serverStream = some x) :
      Moved hash s (.forward k n) { s with
        streamStore := s.streamStore.insert k { e with stream := { e.stream with buffer := e.stream.buffer.drop n } }
        handed := s.handed ++ (e.stream.buffer.take n).map fun d => ⟨e.stream.id, x, d⟩ }
  | packet {x : Nat} (d : DataBuffer) (ha : alive s x = true) :
      Moved hash s (.packet x d) { s with
        output := s.output ++ (packetOutput s x d).map (x, ·)
        arrived := s.arrived ++ [(x, d)] }

theorem step_moved {ev : Ev} (h : Inv hash s) (hs : step hash s ev = some t) : Moved hash s ev t := by
  cases ev with
  | input d calls => cases hs; exact .input d calls
  | update a =>
    obtain ⟨act, ha, hu⟩ := Option.bind_eq_some_iff.mp hs
    rcases h.update_cases ha with ⟨hr, e⟩ | ⟨k, e, x, -, hk, hid, hn, hact, hx, e'⟩
    · rw [e] at hu; cases hu
      exact .turn ⟨act, ha, hr, rfl⟩ ha (h.mgr.runAction ha) (Manager.turn_runAction ha)
    · rw [e'] at hu; cases hu
      exact .tie ha hk hid hn hact hx
  | servers a sds =>
    obtain ⟨m, hm, rfl⟩ := Option.map_eq_some_iff.mp hs
    obtain ⟨r, hr, ht⟩ := Manager.turn_onServers hm
    exact .turn hm (Manager.requesting_some hr).1 (h.mgr.onServers hm) ht
  | serversError a =>
    obtain ⟨m, hm, rfl⟩ := Option.map_eq_some_iff.mp hs
    obtain ⟨r, hr, ht⟩ := Manager.turn_onServersError hm
    exact .turn hm (Manager.requesting_some hr).1 (h.mgr.onServersError hm) ht
  | serversStop a =>
    obtain ⟨m, hm, rfl⟩ := Option.map_eq_some_iff.mp hs
    obtain ⟨r, hr, ht⟩ := Manager.turn_onServersStop hm
    exact .turn hm (Manager.requesting_some hr).1 (h.mgr.onServersStop hm) ht
  | link x st =>
    simp only [step] at hs
    split at hs
    · next hc => cases hs; exact .link hc.1 hc.2
    · cases hs
  | streamUpdate k =>
    obtain ⟨e, hk, rfl⟩ := Option.map_eq_some_iff.mp hs
    exact .streamUpdate hk
  | forward k n =>
    simp only [step] at hs
    split at hs
    · next e hk =>
      obtain ⟨x, hx, rfl⟩ := Option.map_eq_some_iff.mp hs
      exact .forward n hk hx
    · cases hs
  | packet x d =>
    simp only [step] at hs
    split at hs
    · next hc => cases hs; exact .packet d hc
    · cases hs

theorem Inv.moved {ev : Ev} (h : Inv hash s) (hm : Moved hash s ev t) : Inv hash t := by
  cases hm with
  | input d calls => exact h.input d calls
  | turn _ ha hm ht => exact h.turn ha hm ht
  | tie ha hk hid hn _ hx => exact h.tie ha hk hid hn hx
  | link _ _ => exact (h.setLinkState _ _).erases (linkUpdate_erases s _ _)
  | streamUpdate _ => exact h.erases (erases_emitUpdate s _)
  | forward n hk _ => exact h.setBuffer hk _ h.writes _
  | packet d _ =>
    exact ⟨h.mgr, h.length, h.outSubs, h.updateSubs, h.entry, h.sub, h.tied, h.ties, h.tiesMade, h.writes, h.madeFor,
      h.pending⟩

theorem step_inv {ev : Ev} (h : Inv hash s) (hs : step hash s ev = some t) : Inv hash t := h.moved (step_moved h hs)

end AetherGateway.Port
