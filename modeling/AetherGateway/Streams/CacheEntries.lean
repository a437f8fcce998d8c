/-
  AetherGateway.Streams.CacheEntries — the entries of the stream cache, in every run of the
  manager's callers (see `AetherGateway.Streams.Callers`).

  The cache holds a stream for as long as somebody else does. Expired entries are purged
  by cached calls only, a resolution inserts without looking whether an expired entry is
  there or whether its call wanted the cache, and the insertion does not overwrite.
  - `usable_iff`: each resolution of a run leaves an entry that serves later cached calls
    exactly when none finds an expired entry under its id.
  - `blocked_entry`: two resolutions of one id, the first one's stream dropped in between.
  - `private_iff`: the streams of uncached calls are given to nobody else exactly when no
    cached call finds one of them in the cache.
  - `uncached_shared`: a cached call after an uncached one.
-/

import AetherGateway.Streams.Callers

namespace AetherGateway.Streams.Callers

open AetherGateway.Runs

variable {s t : St} {e : Ev} {x : Nat} {id : ServerId}

/-! ## Entries stay as long as their stream is alive -/

/-- Nobody gets hold of a stream again that nobody holds. -/
theorem Moved.alive (hm : Moved s e t) (hx : x < s.mgr.streams.length) (h : alive t x = true) : alive s x = true := by
  cases hm with
  | call _ _ hact _ _ _ _ hhold =>
    rcases alive_iff.mp h with h | h
    · obtain ⟨b, act', hb, hs⟩ := Manager.heldByAction_iff.mp h
      simp only [hact] at hb
      split at hb
      · cases hb
        rcases hhold x hs with hhit | hle
        · cases e with
          | getStream id cache => exact hhit.2.2
          | _ => cases hhit
        · omega
      · exact alive_iff.mpr (Or.inl (Manager.heldByAction_iff.mpr ⟨b, act', hb, hs⟩))
    · exact alive_iff.mpr (Or.inr h)
  | @turn e a act mgr _ ha _ ht _ =>
    rcases alive_iff.mp h with h | h
    · obtain ⟨b, act', hb, hs⟩ := Manager.heldByAction_iff.mp h
      refine alive_iff.mpr (Or.inl (Manager.heldByAction_iff.mpr ?_))
      by_cases hba : b = a
      · subst hba
        rcases ht.stream act' x hb hs with hs | hle
        · exact ⟨b, act, ha, hs⟩
        · omega
      · exact ⟨b, act', by rw [← ht.other b hba]; exact hb, hs⟩
    · exact alive_iff.mpr (Or.inr h)
  | @result a y act ha _ hy =>
    rcases alive_iff.mp h with h | ⟨b, h⟩
    · exact alive_iff.mpr (Or.inl (Manager.heldByAction_endAction ha h))
    · rcases List.mem_append.mp h with h | h
      · exact alive_iff.mpr (Or.inr ⟨b, h⟩)
      · cases List.mem_singleton.mp h
        exact alive_iff.mpr (Or.inl (Manager.heldByAction_iff.mpr ⟨a, act, ha, hy⟩))
  | drop a =>
    rcases alive_iff.mp h with h | ⟨b, h⟩
    · exact alive_iff.mpr (Or.inl h)
    · exact alive_iff.mpr (Or.inr ⟨b, (List.mem_filter.mp h).1⟩)

theorem Moved.cache (hi : Inv s) (hm : Moved s e t) (hc : s.mgr.streamCache id = some x) (h : Callers.alive t x = true) :
    t.mgr.streamCache id = some x := by
  have hx := hm.alive (Manager.madeFor_lt (hi.mgr.cached id x hc)) h
  cases hm with
  | call _ _ _ _ _ _ hcache _ => exact hcache id x hc hx
  | turn _ _ _ _ hcache => exact hcache id x hc
  | result _ _ _ => exact hc
  | drop a => exact hc

theorem Moved.made (hm : Moved s e t) {f : ServeKind} (h : s.mgr.madeFor x = some f) : t.mgr.madeFor x = some f := by
  cases hm with
  | call _ _ _ _ _ hmade _ _ => exact hmade x f h
  | turn _ _ _ ht _ => exact ht.made x f h
  | result _ _ _ => exact h
  | drop a => exact h

/-- A cached entry is found under its id in every later state in which its stream is alive. -/
theorem entry_stays {es : List Ev} (hi : Inv s) (hc : s.mgr.streamCache id = some x) (h : exec step s es = some t) :
    alive t x = true → t.mgr.streamCache id = some x := by
  have hmade := hi.mgr.cached id x hc
  refine (invariant (I := fun t => Inv t ∧ t.mgr.madeFor x = some (.id id) ∧
    (alive t x = true → t.mgr.streamCache id = some x)) ?_ ⟨hi, hmade, fun _ => hc⟩ h).2.2
  intro u e v ⟨hi, hf, hcu⟩ hv
  have hm := step_moved hi hv
  exact ⟨hi.moved hm, hm.made hf, fun ha => hm.cache hi (hcu (hm.alive (Manager.madeFor_lt hf) ha)) ha⟩

/-! ## What a resolution leaves -/

/-- The id under which the step caches the stream of a resolution: `CheckServerExists` finds
    the server, or the cloud answers. -/
def resolves (s : St) : Ev → Option ServerId
  | .update a =>
    match s.mgr.action? a with
    | some (.request r) =>
      if r.state = .set .checkServerExists ∧ s.mgr.registry r.serverId ≠ none then some r.serverId else none
    | _ => none
  | .servers a (_ :: _) => (s.mgr.requesting a).map (·.serverId)
  | _ => none

/-- The id is cached, for a stream that is alive, and as long as it is a cached call gets
    it and makes no other. -/
def Usable (s : St) (id : ServerId) : Prop :=
  ∃ x, s.mgr.streamCache id = some x ∧ alive s x = true ∧
    ∀ es t u, exec step s es = some t → alive t x = true → step t (.getStream id true) = some u →
      u.mgr.action? t.mgr.actions.length = some (.existing (some x)) ∧ u.mgr.streams = t.mgr.streams

/-- No resolution finds an expired entry under its id. -/
def NoExpired (s : St) (e : Ev) : Prop :=
  ∀ id ∈ resolves s e, ∀ x ∈ s.mgr.streamCache id, alive s x = true

instance (s : St) (e : Ev) : Decidable (NoExpired s e) :=
  inferInstanceAs (Decidable (∀ id ∈ resolves s e, ∀ x ∈ s.mgr.streamCache id, alive s x = true))

/-- The resolution's action, which held no stream yet, gets a new one. -/
theorem resolves_step (hi : Inv s) (h : resolves s e = some id) :
    ∃ (m : Manager) (a : Nat) (r : RequestServerStreamGetAction) (v : Nat) (act : StreamGetAction),
      step s e = some { s with mgr := m.resolve a r v } ∧ r.serverId = id ∧ m.streamCache = s.mgr.streamCache ∧
        m.actions = s.mgr.actions ∧ s.mgr.action? a = some act ∧ act.stream = none := by
  cases e with
  | update a =>
    simp only [resolves] at h
    split at h
    · next r ha =>
      split at h
      · next hc =>
        cases h
        have hn : r.stream = none := Manager.phaseOk_stream (hi.mgr.acts a _ ha).1 (by rw [hc.1]; decide)
        refine ⟨s.mgr, a, r, (s.mgr.registry r.serverId).getD 0, _, ?_, rfl, rfl, rfl, ha, hn⟩
        rcases Manager.runAction_request s.mgr a r with ⟨hn, -⟩ | ⟨-, v, hv, e⟩ | ⟨-, hn, -⟩ | ⟨hst, -⟩ | ⟨hst, -⟩ | ⟨hst, -⟩
        · rw [hc.1] at hn; cases hn
        · simp only [step, ha, Option.map_some, update, e, hv, Option.getD_some]
        · exact absurd hn hc.2
        · rw [hc.1] at hst; cases hst
        · rw [hc.1] at hst; cases hst
        · rw [hc.1] at hst; cases hst
      · cases h
    · cases h
  | servers a sds =>
    cases sds with
    | nil => cases h
    | cons sd rest =>
      obtain ⟨r, hr, rfl⟩ := Option.map_eq_some_iff.mp h
      have hb := Manager.buildServer_frame (m := s.mgr) sd.serverId (Manager.endpointsOf sd)
      refine ⟨(s.mgr.buildServer sd.serverId (Manager.endpointsOf sd)).1, a, { r with getServers := .ended },
        (s.mgr.buildServer sd.serverId (Manager.endpointsOf sd)).2, .request r, ?_, rfl, hb.2.1, hb.2.2,
        (Manager.requesting_some hr).1, (hi.mgr.waiting hr).2⟩
      simp only [step, Manager.onServers, hr, Option.map_some]
  | _ => cases h

/-- A hit: the call's action has the stream and nothing is made. -/
theorem getStream_hit {u : St} (hc : s.mgr.streamCache id = some x) (ha : alive s x = true)
    (h : step s (.getStream id true) = some u) :
    u.mgr.action? s.mgr.actions.length = some (.existing (some x)) ∧ u.mgr.streams = s.mgr.streams := by
  cases h
  rcases Manager.getStream_cases s.mgr (alive s) id true with ⟨-, y, hy, -, e⟩ | ⟨-, hn, -⟩ | ⟨hf, -⟩
  · rw [hc] at hy
    cases hy
    simp only [e]
    exact ⟨(Manager.action?_push _).trans (if_pos rfl), rfl⟩
  · simp [Manager.openCache, hc, ha] at hn
  · cases hf

theorem usable_of_entry (hi : Inv s) (hc : s.mgr.streamCache id = some x) (ha : alive s x = true) : Usable s id :=
  ⟨x, hc, ha, fun _ _ _ ht hat hu => getStream_hit (entry_stays hi hc ht hat) hat hu⟩

theorem usable_step (hi : Inv s) :
    (∀ t, step s e = some t → ∀ id ∈ resolves s e, Usable t id) ↔ NoExpired s e := by
  constructor
  · intro h id hid x hx
    obtain ⟨m, a, r, v, act, hs, -, hca, -, -, -⟩ := resolves_step hi hid
    obtain ⟨y, hy, hya, -⟩ := h _ hs id hid
    -- the insertion has left the entry that was there
    have hxt := cache_resolve a r v (by rw [hca]; exact hx)
    cases hxt.symm.trans hy
    exact (step_moved hi hs).alive (Manager.madeFor_lt (hi.mgr.cached id x hx)) hya
  · intro h t hs id hid
    obtain ⟨m, a, r, v, act, hs', hr, hca, hac, ha, hn⟩ := resolves_step hi hid
    cases hs'.symm.trans hs
    have hit := step_inv hi hs
    have ham : m.action? a = some act := by rw [Manager.action?_congr hac]; exact ha
    have hact := Manager.resolve_action? m a r v ham
    rw [Manager.action?_congr hac] at hact
    cases hc : s.mgr.streamCache id with
    | none =>
      have hheld := Manager.heldByAction_iff.mpr ⟨a, _, (hact a).trans (if_pos rfl), rfl⟩
      refine usable_of_entry hit ?_ (alive_iff.mpr (Or.inl hheld))
      show (m.resolve a r v).streamCache id = _
      rw [Manager.resolve_streamCache, if_pos hr.symm, hca, hc]; rfl
    | some x =>
      refine usable_of_entry hit (cache_resolve a r v (by rw [hca]; exact hc)) ?_
      rcases alive_iff.mp (h id hid x hc) with hx | hx
      · obtain ⟨b, act', hb, hs⟩ := Manager.heldByAction_iff.mp hx
        have hba : b ≠ a := by
          intro hba
          rw [hba, ha] at hb
          cases hb
          rw [hn] at hs; cases hs
        exact alive_iff.mpr (Or.inl (Manager.heldByAction_iff.mpr ⟨b, act', (hact b).trans ((if_neg hba).trans hb), hs⟩))
      · exact alive_iff.mpr (Or.inr hx)

/-- Every resolution of a run leaves a usable entry exactly when none finds an expired one. -/
theorem usable_iff (known : List Server) (es : List Ev) :
    Along step (fun s e t => ∀ id ∈ resolves s e, Usable t id) (init known) es ↔
      Meets step NoExpired (init known) es :=
  along_iff_meets (I := Inv) (fun _ _ _ hi hs => step_inv hi hs) (fun _ _ hi => usable_step hi) (init_inv known)

/-- Two calls start a resolution of id 5 each; the first one's stream is dropped before the
    second one inserts its own, and the expired entry stays. -/
theorem blocked_entry :
    let es := [Ev.getStream 5 true, .getStream 5 true, .update 0, .update 0, .drop 0, .update 1]
    ¬ Along step (fun s e t => ∀ id ∈ resolves s e, Usable t id) (init [⟨5, []⟩]) es := by
  intro es h
  obtain ⟨x, hx, ha, -⟩ := ((((((h _ rfl).2 _ rfl).2 _ rfl).2 _ rfl).2 _ rfl).2 _ rfl).1 5 (by decide)
  obtain rfl : 0 = x := Option.some.inj hx
  revert ha
  decide

/-! ## Streams of uncached calls -/

def Given (s : St) (a x : Nat) : Prop :=
  (∃ act, s.mgr.action? a = some act ∧ act.stream = some x) ∨ (a, some x) ∈ s.results

def Uncached (s : St) (a : Nat) : Prop := ∃ id, s.calls[a]? = some ⟨.id id, false⟩

/-- What an uncached call got no other call got. -/
def Private (s : St) : Prop := ∀ a b x, Uncached s a → Given s a x → Given s b x → b = a

/-- No cached call finds in the cache what an uncached call got. -/
def NoUncachedHit (s : St) (e : Ev) : Prop := ∀ x, Hit s x e → ∀ a, Uncached s a → ¬ Given s a x

theorem Given.bound (hi : Inv s) {a : Nat} (h : Given s a x) : x < s.mgr.streams.length ∧ a < s.calls.length := by
  rcases h with ⟨act, ha, hx⟩ | h
  · obtain ⟨c, hc, hs⟩ := hi.serves a act ha
    exact ⟨Manager.madeFor_lt (hs.stream (hi.mgr.acts a act ha) hx), (List.getElem?_eq_some_iff.mp hc).1⟩
  · obtain ⟨y, c, hy, hc, hf⟩ := hi.results a _ h
    cases hy
    exact ⟨Manager.madeFor_lt hf, (List.getElem?_eq_some_iff.mp hc).1⟩

/-- One action at most gets a stream in a step: a new one, or that of its hit. -/
theorem Moved.given (hi : Inv s) (hm : Moved s e t) :
    ∃ a₀, ∀ b x, Given t b x →
      Given s b x ∨ b = a₀ ∧ (s.mgr.streams.length ≤ x ∨ Hit s x e ∧ a₀ = s.calls.length) := by
  cases hm with
  | call _ _ hact _ _ _ _ hhold =>
    refine ⟨s.calls.length, fun b x h => ?_⟩
    rcases h with ⟨act', hb, hx⟩ | h
    · simp only [hact] at hb
      split at hb
      · next hlen =>
        cases hb
        exact Or.inr ⟨hlen.trans hi.length.symm, (hhold x hx).symm.imp id fun hh => ⟨hh, rfl⟩⟩
      · exact Or.inl (Or.inl ⟨act', hb, hx⟩)
    · exact Or.inl (Or.inr h)
  | @turn e a act mgr _ ha _ ht _ =>
    refine ⟨a, fun b x h => ?_⟩
    rcases h with ⟨act', hb, hx⟩ | h
    · by_cases hba : b = a
      · subst hba
        rcases ht.stream act' x hb hx with hx | hle
        · exact Or.inl (Or.inl ⟨act, ha, hx⟩)
        · exact Or.inr ⟨rfl, Or.inl hle⟩
      · exact Or.inl (Or.inl ⟨act', by rw [← ht.other b hba]; exact hb, hx⟩)
    · exact Or.inl (Or.inr h)
  | @result a y act ha _ hy =>
    refine ⟨a, fun b x h => Or.inl ?_⟩
    rcases h with ⟨act', hb, hx⟩ | h
    · simp only [Manager.action?_endAction ha] at hb
      split at hb
      · cases hb
      · exact Or.inl ⟨act', hb, hx⟩
    · rcases List.mem_append.mp h with h | h
      · exact Or.inr h
      · cases List.mem_singleton.mp h
        exact Or.inl ⟨act, ha, hy⟩
  | drop a => exact ⟨a, fun b x h => Or.inl h⟩

/-- Earlier calls are as they were. -/
theorem Moved.calls (hm : Moved s e t) :
    t.calls = s.calls ∨ ∃ c, e.call? = some c ∧ t.calls = s.calls ++ [c] := by
  cases hm with
  | @call e mgr act c hc _ _ _ _ _ _ _ => exact Or.inr ⟨c, hc, rfl⟩
  | turn _ _ _ _ _ => exact Or.inl rfl
  | result _ _ _ => exact Or.inl rfl
  | drop a => exact Or.inl rfl

theorem Moved.uncached (hm : Moved s e t) {a : Nat} (h : Uncached t a) (ha : a < s.calls.length) : Uncached s a := by
  obtain ⟨id, h⟩ := h
  rcases hm.calls with hc | ⟨c, -, hc⟩
  · exact ⟨id, by rw [← hc]; exact h⟩
  · rw [hc, List.getElem?_append_left ha] at h
    exact ⟨id, h⟩

theorem Private.moved (h : Private s) (hi : Inv s) (hc : NoUncachedHit s e) (hm : Moved s e t) : Private t := by
  intro a b x hu ha hb
  obtain ⟨a₀, hg⟩ := hm.given hi
  -- a hit is a cached call's
  have cached : Hit s x e → ¬ Uncached t s.calls.length := by
    intro hh ⟨id, hid⟩
    cases e with
    | getStream i cache =>
      obtain ⟨rfl, -, -⟩ := hh
      rcases hm.calls with hc | ⟨c, hce, hc⟩
      · rw [hc, List.getElem?_eq_none (Nat.le_refl _)] at hid
        cases hid
      · cases hce
        simp [hc] at hid
    | _ => cases hh
  rcases hg a x ha with ha | ⟨rfl, hx⟩
  · have hbound := ha.bound hi
    rcases hg b x hb with hb | ⟨rfl, hx⟩
    · exact h a b x (hm.uncached hu hbound.2) ha hb
    · rcases hx with hx | ⟨hh, -⟩
      · omega
      · exact absurd ha (hc x hh a (hm.uncached hu hbound.2))
  · rcases hg b x hb with hb | ⟨rfl, -⟩
    · have hbound := hb.bound hi
      rcases hx with hx | ⟨hh, rfl⟩
      · omega
      · exact absurd hu (cached hh)
    · rfl

/-- A cached call that finds an uncached call's stream is given it. -/
theorem shared_step (hi : Inv s) (h : ¬ NoUncachedHit s e) : ∃ t, step s e = some t ∧ ¬ Private t := by
  simp only [NoUncachedHit, not_forall, not_not] at h
  obtain ⟨x, hh, a, hu, ha⟩ := h
  cases e with
  | getStream id cache =>
    obtain ⟨rfl, hc, hl⟩ := hh
    obtain ⟨t, ht⟩ : ∃ t, step s (.getStream id true) = some t := ⟨_, rfl⟩
    obtain ⟨hhit, -⟩ := getStream_hit hc hl ht
    have hbound := ha.bound hi
    have hut : Uncached t a := by
      obtain ⟨i, hi'⟩ := hu
      cases ht
      exact ⟨i, (List.getElem?_append_left hbound.2).trans hi'⟩
    have hat : Given t a x := by
      cases ht
      rcases ha with ⟨act, ha, hx⟩ | ha
      · obtain ⟨act', hact, -⟩ := hi.mgr.getStream_pushes (alive s) id true
        have hlt := Manager.action?_lt ha
        exact Or.inl ⟨act, (hact a).trans ((if_neg (by omega)).trans ha), hx⟩
      · exact Or.inr ha
    refine ⟨t, ht, fun hp => ?_⟩
    have heq := hp a s.mgr.actions.length x hut hat (Or.inl ⟨_, hhit, rfl⟩)
    have hlen := hi.length
    omega
  | _ => cases hh

/-- In a run the streams of uncached calls are private exactly when no cached call finds
    one in the cache. -/
theorem private_iff (known : List Server) (es : List Ev) :
    Always step Private (init known) es ↔ Meets step NoUncachedHit (init known) es := by
  refine always_iff_meets (I := fun s => Inv s ∧ Private s) (fun s h => h.2) ?_ ?_ ⟨init_inv known, ?_⟩
  · intro s e t ⟨hi, h⟩ hc hs
    exact ⟨step_inv hi hs, h.moved hi hc (step_moved hi hs)⟩
  · intro s e ⟨hi, _⟩ hc
    exact shared_step hi hc
  · intro a b x ⟨id, hu⟩
    simp [init] at hu

/-- A call for id 5 without the cache caches its stream, and the next call gets it. -/
theorem uncached_shared :
    let es := [Ev.getStream 5 false, .update 0, .update 0, .getStream 5 true]
    ¬ Always step Private (init [⟨5, []⟩]) es := by
  intro es h
  have hlast := always_exec h rfl
  have : 1 = 0 := hlast 0 1 0 ⟨5, rfl⟩ (Or.inr (by decide)) (Or.inl ⟨.existing (some 0), by decide, rfl⟩)
  cases this

end AetherGateway.Streams.Callers
