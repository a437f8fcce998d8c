/-
  AetherGateway.Port.LinkErrors — failed server streams, the cache and the clients that
  try again (see `AetherGateway.Port.LocalPort`).

  The cache drops a stream when nobody holds it any more. The streams of the clients let a
  failed one go at once; a pending action that holds it does not.
  - `linkUpdate_releases`: after a link error no stored stream is tied to the failed one.
  - `unfailed_iff`: in a run no call gets a failed stream from the cache, and no client
    that has had a link error gets one at all, exactly when no stream fails that a pending
    action holds which is cached or which such a client waits for.
  - `failed_stream_served`: between a cache hit and its action's turn the stream fails,
    and the next call gets it from the cache.
-/

import AetherGateway.Port.Routing

namespace AetherGateway.Port

open AetherGateway.Streams AetherGateway.Runs

variable {hash : ServerEndpoints → UInt64} {s t : St} {k : Key} {e : StreamStore} {x : Nat}

/-- A call with the cache would get an existing stream that has failed. -/
def ServesFailed (s : St) : Prop :=
  ∃ id x, (s.mgr.getStream (alive s) id true).1.action? s.mgr.actions.length = some (.existing (some x)) ∧
    s.mgr.linkState x = .linkError

/-- A client that has had a link error is tied to a stream that has failed. -/
def HasFailed (s : St) : Prop :=
  ∃ k e x, k ∈ s.reported ∧ s.streamStore.lookup k = some e ∧ e.stream.serverStream = some x ∧
    s.mgr.linkState x = .linkError

/-- No call is served a failed stream, and no client that has had a link error has one or
    is about to be given one. -/
structure Unfailed (hash : ServerEndpoints → UInt64) (s : St) : Prop where
  served : ¬ ServesFailed s
  has : ¬ HasFailed s
  given : ∀ a t, step hash s (.update a) = some t → ¬ HasFailed t

/-- When a stream fails that a pending action holds, it is not cached, and the client that
    waits for the action has had no link error. -/
def Released (s : St) : Ev → Prop
  | .link x .linkError =>
    ∀ a act, s.mgr.action? a = some act → act.stream = some x → (∀ id, s.mgr.streamCache id ≠ some x) ∧
      ∀ k e, s.streamStore.lookup k = some e → e.stream.id = a → k ∉ s.reported
  | _ => True

def Purged (s : St) : Prop :=
  ∀ id x, s.mgr.streamCache id = some x → s.mgr.linkState x = .linkError → alive s x = false

/-- The entry of the key is tied to the stream, or its pending action holds it. -/
def Given (s : St) (k : Key) (x : Nat) : Prop :=
  ∃ e, s.streamStore.lookup k = some e ∧
    (e.stream.serverStream = some x ∨ ∃ act, s.mgr.action? e.stream.id = some act ∧ act.stream = some x)

def Spared (s : St) : Prop := ∀ k x, Given s k x → s.mgr.linkState x = .linkError → k ∉ s.reported

theorem getStream_hit {m : Manager} {live : Nat → Bool} {id : ServerId} (hc : m.streamCache id = some x)
    (hx : live x = true) : m.getStream live id true = (m.openCache live).pushAction (.existing (some x)) := by
  have ho : (m.openCache live).streamCache id = some x := by simp [Manager.openCache, hc, hx]
  simp only [Manager.getStream, ho, hx, if_true]

theorem Purged.not_servesFailed (h : Purged s) : ¬ ServesFailed s := by
  intro ⟨id, x, ha, hl⟩
  rcases Manager.getStream_cases s.mgr (alive s) id true with ⟨-, y, hc, hy, e⟩ | ⟨-, -, e⟩ | ⟨hf, -⟩
  · rw [e, Manager.action?_push] at ha
    have hxy : some (StreamGetAction.existing (some y)) = some (.existing (some x)) := (if_pos rfl).symm.trans ha
    cases hxy
    rw [h id x hc hl] at hy; cases hy
  · rw [e, Manager.action?_push] at ha
    have hreq : some (StreamGetAction.request (.make id)) = some (.existing (some x)) := (if_pos rfl).symm.trans ha
    cases hreq
  · cases hf

theorem Spared.not_hasFailed (h : Spared s) : ¬ HasFailed s := by
  intro ⟨k, e, x, hk, he, hx, hl⟩
  exact h k x ⟨e, he, Or.inl hx⟩ hl hk

/-! ## A link error releases the streams tied to it -/

theorem foldl_emitUpdate_releases (l : List Nat) {u : St} (hi : Inv hash u) (hl : u.mgr.linkState x = .linkError)
    (hin : ∀ k e, u.streamStore.lookup k = some e → e.stream.serverStream = some x → e.stream.id ∈ l) :
    ∀ k e, (l.foldl emitUpdate u).streamStore.lookup k = some e → e.stream.serverStream ≠ some x := by
  induction l generalizing u with
  | nil => intro k e hk hx; cases hin k e hk hx
  | cons g l ih =>
    have he := erases_emitUpdate u g
    refine ih (hi.erases he) (by rw [he.mgr]; exact hl) fun k e hk hx => ?_
    rcases List.mem_cons.mp (hin k e (he.sub k e hk) hx) with hg | hmem
    · -- its own update has erased it
      have hu := he.sub k e hk
      rw [← hg, emitUpdate_eq hi hu] at hk
      have hls : gwLinkState u e.stream = .linkError := by rw [gwLinkState, hx]; exact hl
      unfold streamState at hk
      simp only [hu, hls, if_true, AList.lookup_erase] at hk
      cases hk
    · exact hmem

/-- Every stream tied to the failed one has reported it and is gone. -/
theorem linkUpdate_releases (hi : Inv hash s) (ha : alive s x = true) :
    ∀ k e, (linkUpdate s x .linkError).streamStore.lookup k = some e → e.stream.serverStream ≠ some x := by
  obtain ⟨f, hf⟩ := hi.alive_madeFor ha
  refine foldl_emitUpdate_releases _ (hi.setLinkState x .linkError) (Manager.linkState_setLinkState_self _ hf) ?_
  intro k e hk hx
  have htie := (hi.tied k e x hk).mp hx
  exact List.mem_map.mpr ⟨(x, e.stream.id), List.mem_filter.mpr ⟨htie, by simp⟩, rfl⟩

/-! ## Steps -/

/-- A step that neither caches nor takes up an old stream, and makes none fail. -/
theorem Purged.of (h : Purged s) (hlink : ∀ x, t.mgr.linkState x = .linkError → s.mgr.linkState x = .linkError)
    (hcache : ∀ id x, t.mgr.streamCache id = some x → s.mgr.linkState x = .linkError →
      s.mgr.streamCache id = some x ∧ (alive t x = true → alive s x = true)) : Purged t := by
  intro id x hc hl
  obtain ⟨hc', hx⟩ := hcache id x hc (hlink x hl)
  have hn := h id x hc' (hlink x hl)
  cases hv : alive t x with
  | false => rfl
  | true => rw [hx hv] at hn; cases hn

theorem new_unfailed (hle : s.mgr.streams.length ≤ x) : s.mgr.linkState x ≠ .linkError := by
  rw [Manager.linkState, List.getElem?_eq_none hle]
  exact nofun

theorem alive_of_erases (he : Erases s t) (h : alive t x = true) : alive s x = true := by
  rcases alive_iff.mp h with ⟨a, act, ha, hx⟩ | ⟨k, e, hk, hx⟩
  · exact alive_iff.mpr (Or.inl ⟨a, act, by rw [← he.mgr]; exact ha, hx⟩)
  · exact alive_iff.mpr (Or.inr ⟨k, e, he.sub k e hk, hx⟩)

theorem Purged.erases (h : Purged s) (he : Erases s t) : Purged t :=
  h.of (fun x hl => by rw [← he.mgr]; exact hl) fun id x hc _ =>
    ⟨by rw [← he.mgr]; exact hc, alive_of_erases he⟩

theorem Purged.setBuffer (h : Purged s) (hk : s.streamStore.lookup k = some e) (b : List DataBuffer) (ws : List Write)
    (hs : List Handed) :
    Purged { s with
      streamStore := s.streamStore.insert k { e with stream := { e.stream with buffer := b } }
      writes := ws
      handed := hs } := by
  refine h.of (fun x hl => hl) fun id x hc _ => ⟨hc, fun hx => ?_⟩
  rcases alive_iff.mp hx with ha | ⟨k', e', hk', hx⟩
  · exact alive_iff.mpr (Or.inl ha)
  · rcases lookup_insert_cases hk' with ⟨rfl, rfl⟩ | ⟨-, hk'⟩
    · exact alive_iff.mpr (Or.inr ⟨k', e, hk, hx⟩)
    · exact alive_iff.mpr (Or.inr ⟨k', e', hk', hx⟩)

/-- The action of a call takes up a stream that is cached and alive, or a new one. -/
theorem gwStream_takes (hi : Inv hash s) (server : ServeKind) {act : StreamGetAction}
    (ha : (gwStream s server).1.action? s.made.length = some act) (hx : act.stream = some x) :
    (∃ id, s.mgr.streamCache id = some x ∧ alive s x = true) ∨ s.mgr.streams.length ≤ x := by
  cases server with
  | id i =>
    change (s.mgr.getStream (alive s) i true).1.action? s.made.length = some act at ha
    rw [← hi.length] at ha
    rcases Manager.getStream_cases s.mgr (alive s) i true with ⟨-, y, hc, hy, e⟩ | ⟨-, -, e⟩ | ⟨hf, -⟩
    · rw [e, Manager.action?_push] at ha
      have hact : some (StreamGetAction.existing (some y)) = some act := (if_pos rfl).symm.trans ha
      cases hact
      cases hx
      exact Or.inl ⟨i, hc, hy⟩
    · rw [e, Manager.action?_push] at ha
      have hact : some (StreamGetAction.request (.make i)) = some act := (if_pos rfl).symm.trans ha
      cases hact
      cases hx
    · cases hf
  | endpoints ep =>
    have hto := (Manager.getStreamTo_action? s.mgr ep s.made.length).symm.trans ha
    rw [hi.length, if_pos rfl] at hto
    cases hto
    cases hx
    exact Or.inr (Nat.le_refl _)

/-- A call caches nothing. -/
theorem gwStream_cache (server : ServeKind) {id : ServerId} (hc : (gwStream s server).1.streamCache id = some x) :
    s.mgr.streamCache id = some x := by
  cases server with
  | id i =>
    change (s.mgr.getStream (alive s) i true).1.streamCache id = some x at hc
    have hopen : (s.mgr.openCache (alive s)).streamCache id = some x → s.mgr.streamCache id = some x :=
      fun h => (Option.filter_eq_some_iff.mp h).1
    rcases Manager.getStream_cases s.mgr (alive s) i true with ⟨-, y, -, -, e⟩ | ⟨-, -, e⟩ | ⟨hf, -⟩
    · rw [e] at hc
      exact hopen hc
    · rw [e] at hc
      exact hopen hc
    · cases hf
  | endpoints ep =>
    change (s.mgr.getStreamTo ep).1.streamCache id = some x at hc
    rw [Manager.getStreamTo_streamCache] at hc
    exact hc

theorem gwStream_linkState (s : St) (server : ServeKind) : (gwStream s server).1.linkState = s.mgr.linkState := by
  cases server with
  | id i =>
    show (s.mgr.getStream (alive s) i true).1.linkState = _
    rcases Manager.getStream_cases s.mgr (alive s) i true with ⟨-, y, -, -, e⟩ | ⟨-, -, e⟩ | ⟨-, e⟩ <;> rw [e] <;> rfl
  | endpoints ep =>
    show ((s.mgr.buildServer 0 ep).1.makeStream (s.mgr.buildServer 0 ep).2 (.endpoints ep)).1.linkState = _
    rw [Manager.linkState_makeStream, Manager.linkState_congr (Manager.buildServer_streams 0 ep)]

theorem Purged.openStream (h : Purged s) (hi : Inv hash s) (f : Flow) : Purged (openStream hash s f) := by
  cases hk : s.streamStore.lookup (f.key hash) with
  | some e => rw [openStream_found hk]; exact h
  | none =>
    obtain ⟨act, hg, -, hact, -, -, -⟩ := hi.gwStream f.server
    rw [openStream_new hk, hg]
    refine h.of (fun x hl => ?_) fun id x hc _ => ?_
    · rw [← gwStream_linkState s f.server]; exact hl
    · have hc' := gwStream_cache f.server hc
      refine ⟨hc', fun hx => ?_⟩
      rcases alive_iff.mp hx with ⟨a, act', ha, hs⟩ | ⟨k', e', hk', hs⟩
      · by_cases hal : a = s.made.length
        · subst hal
          rcases gwStream_takes hi f.server ha hs with ⟨-, -, hx⟩ | hle
          · exact hx
          · exact absurd (Manager.madeFor_lt (hi.mgr.cached id x hc')) (Nat.not_lt.mpr hle)
        · have ha' := (hact a).symm.trans ha
          rw [if_neg hal] at ha'
          exact alive_iff.mpr (Or.inl ⟨a, act', ha', hs⟩)
      · rcases lookup_insert_cases hk' with ⟨rfl, rfl⟩ | ⟨-, hk'⟩
        · cases hs
        · exact alive_iff.mpr (Or.inr ⟨k', e', hk', hs⟩)

theorem Purged.input (h : Purged s) (hi : Inv hash s) (d : UInt8) (calls : List Call) :
    Purged (input hash d s calls) := by
  unfold Port.input
  induction calls generalizing s with
  | nil => exact h
  | cons c calls ih =>
    refine ih ?_ (hi.api d c)
    obtain ⟨e, he, -⟩ := openStream_lookup hash s (c.flow d)
    rw [api, write_stored he c.data]
    exact (h.openStream hi _).setBuffer he _ _ _

/-- A turn caches and takes up a new stream at most. -/
theorem Purged.turn (h : Purged s) {a : Nat} {act : StreamGetAction} {m : Manager} (ha : s.mgr.action? a = some act)
    (ht : s.mgr.Turn a act m) : Purged { s with mgr := m } := by
  refine h.of (fun x hl => by rw [← ht.link]; exact hl) fun id x hc hl => ⟨?_, fun hx => ?_⟩
  · rcases ht.cache id x hc with hc | hle
    · exact hc
    · exact absurd hl (new_unfailed hle)
  · rcases alive_iff.mp hx with ⟨b, act', hb, hs⟩ | hk
    · by_cases hba : b = a
      · subst hba
        rcases ht.stream act' x hb hs with hs | hle
        · exact alive_iff.mpr (Or.inl ⟨b, act, ha, hs⟩)
        · exact absurd hl (new_unfailed hle)
      · exact alive_iff.mpr (Or.inl ⟨b, act', by rw [← ht.other b hba]; exact hb, hs⟩)
    · exact alive_iff.mpr (Or.inr hk)

/-- The tied stream was held by the action before. -/
theorem Purged.tie (h : Purged s) {a : Nat} {act : StreamGetAction} (ha : s.mgr.action? a = some act)
    (hx : act.stream = some x) (k : Key) (e : StreamStore) : Purged (tie { s with mgr := s.mgr.endAction a } k e x) := by
  refine h.of (fun y hl => hl) fun id y hc _ => ⟨hc, fun hy => ?_⟩
  rcases alive_iff.mp hy with ⟨b, act', hb, hs⟩ | ⟨k', e', hk', hs⟩
  · simp only [Port.tie, Manager.action?_endAction ha] at hb
    split at hb
    · cases hb
    · exact alive_iff.mpr (Or.inl ⟨b, act', hb, hs⟩)
  · rcases lookup_insert_cases hk' with ⟨rfl, rfl⟩ | ⟨-, hk'⟩
    · cases hs
      exact alive_iff.mpr (Or.inl ⟨a, act, ha, hx⟩)
    · exact alive_iff.mpr (Or.inr ⟨k', e', hk', hs⟩)

theorem Purged.link (h : Purged s) (hi : Inv hash s) {st : LinkState} (hr : Released s (.link x st))
    (ha : alive s x = true) : Purged (linkUpdate s x st) := by
  have he := linkUpdate_erases s x st
  have hmgr : (linkUpdate s x st).mgr = s.mgr.setLinkState x st := he.mgr
  obtain ⟨f, hf⟩ := hi.alive_madeFor ha
  intro id y hc hl
  rw [hmgr] at hc hl
  by_cases hyx : y = x
  · subst hyx
    rw [Manager.linkState_setLinkState_self st hf] at hl
    subst hl
    cases hv : alive (linkUpdate s y .linkError) y with
    | false => rfl
    | true =>
      rcases alive_iff.mp hv with ⟨a, act, hact, hs⟩ | ⟨k, e, hk, hs⟩
      · rw [hmgr] at hact
        exact absurd hc ((hr a act hact hs).1 id)
      · exact absurd hs (linkUpdate_releases hi ha k e hk)
  · rw [Manager.linkState_setLinkState_ne st hyx] at hl
    have hn := h id y hc hl
    cases hv : alive (linkUpdate s x st) y with
    | false => rfl
    | true =>
      have hs : alive { s with mgr := s.mgr.setLinkState x st } y = true := alive_of_erases he hv
      exact absurd (hs.symm.trans hn) (by decide)

theorem Purged.step {ev : Ev} (h : Purged s) (hi : Inv hash s) (hr : Released s ev) (hs : step hash s ev = some t) :
    Purged t := by
  cases step_moved hi hs with
  | input d calls => exact h.input hi d calls
  | turn _ ha _ ht => exact h.turn ha ht
  | tie ha _ _ _ hx _ => exact h.tie ha hx _ _
  | link ha _ => exact h.link hi hr ha
  | streamUpdate _ => exact h.erases (erases_emitUpdate s _)
  | forward _ hk _ => exact h.setBuffer hk _ _ _
  | packet _ _ => exact h

/-! ## The clients that try again -/

/-- A step that gives no failed stream to a client that has had a link error. -/
theorem Spared.of (h : Spared s)
    (hg : ∀ k x, Given t k x → t.mgr.linkState x = .linkError → k ∈ t.reported →
      Given s k x ∧ s.mgr.linkState x = .linkError ∧ k ∈ s.reported) : Spared t := by
  intro k x hk hl hr
  obtain ⟨hk, hl, hr⟩ := hg k x hk hl hr
  exact h k x hk hl hr

theorem Given.of_erases {y : Nat} (he : Erases s t) (h : Given t k y) : Given s k y := by
  obtain ⟨e, hk, hy⟩ := h
  rw [he.mgr] at hy
  exact ⟨e, he.sub k e hk, hy⟩

/-- Whose entry is reported, is not given anything. -/
theorem reported_of_given {y : Nat} (he : Erases s t) (h : Given t k y) (hr : k ∈ t.reported) : k ∈ s.reported := by
  rcases he.gone k hr with hr | hn
  · exact hr
  · obtain ⟨e, hk, -⟩ := h
    rw [hn] at hk
    cases hk

theorem Spared.erases (h : Spared s) (he : Erases s t) : Spared t :=
  h.of fun _ _ hk hl hr => ⟨hk.of_erases he, by rw [← he.mgr]; exact hl, reported_of_given he hk hr⟩

theorem Spared.setBuffer (h : Spared s) (hk : s.streamStore.lookup k = some e) (b : List DataBuffer) (ws : List Write)
    (hs : List Handed) :
    Spared { s with
      streamStore := s.streamStore.insert k { e with stream := { e.stream with buffer := b } }
      writes := ws
      handed := hs } := by
  refine h.of fun k' y ⟨e', hk', hy⟩ hl hr => ⟨?_, hl, hr⟩
  rcases lookup_insert_cases hk' with ⟨rfl, rfl⟩ | ⟨-, hk'⟩
  · exact ⟨e, hk, hy⟩
  · exact ⟨e', hk', hy⟩

/-- With the cache purged, what a call's action takes up has not failed. -/
theorem gwStream_unfailed (hp : Purged s) (hi : Inv hash s) (server : ServeKind) {act : StreamGetAction}
    (ha : (gwStream s server).1.action? s.made.length = some act) (hx : act.stream = some x) :
    s.mgr.linkState x ≠ .linkError := by
  intro hl
  rcases gwStream_takes hi server ha hx with ⟨id, hc, hal⟩ | hle
  · rw [hp id x hc hl] at hal
    cases hal
  · exact new_unfailed hle hl

theorem Spared.openStream (h : Spared s) (hp : Purged s) (hi : Inv hash s) (f : Flow) :
    Spared (openStream hash s f) := by
  cases hk : s.streamStore.lookup (f.key hash) with
  | some e => rw [openStream_found hk]; exact h
  | none =>
    obtain ⟨act, hg, -, hact, -, -, -⟩ := hi.gwStream f.server
    rw [openStream_new hk, hg]
    refine h.of fun k' y ⟨e', hk', hy⟩ hl hr => ?_
    replace hl : s.mgr.linkState y = .linkError := by rw [← gwStream_linkState s f.server]; exact hl
    rcases lookup_insert_cases hk' with ⟨rfl, rfl⟩ | ⟨-, hk'⟩
    · rcases hy with hy | ⟨act', ha, hy⟩
      · cases hy
      · exact absurd hl (gwStream_unfailed hp hi f.server ha hy)
    · refine ⟨⟨e', hk', hy.imp_right fun ⟨act', ha, hy⟩ => ⟨act', ?_, hy⟩⟩, hl, hr⟩
      have hne : e'.stream.id ≠ s.made.length := Nat.ne_of_lt (hi.made_lt hk')
      exact (if_neg hne).symm.trans ((hact _).symm.trans ha)

theorem Spared.input (h : Spared s) (hp : Purged s) (hi : Inv hash s) (d : UInt8) (calls : List Call) :
    Spared (input hash d s calls) := by
  unfold Port.input
  induction calls generalizing s with
  | nil => exact h
  | cons c calls ih =>
    obtain ⟨e, he, -⟩ := openStream_lookup hash s (c.flow d)
    have hp' : Purged (api hash d s c) := by
      rw [api, write_stored he c.data]
      exact (hp.openStream hi _).setBuffer he _ _ _
    refine ih ?_ hp' (hi.api d c)
    rw [api, write_stored he c.data]
    exact (h.openStream hp hi _).setBuffer he _ _ _

/-- A turn takes up a new stream at most. -/
theorem Spared.turn (h : Spared s) {a : Nat} {act : StreamGetAction} {m : Manager} (ha : s.mgr.action? a = some act)
    (ht : s.mgr.Turn a act m) : Spared { s with mgr := m } := by
  refine h.of fun k y ⟨e, hk, hy⟩ hl hr => ?_
  replace hl : s.mgr.linkState y = .linkError := by rw [← ht.link]; exact hl
  refine ⟨⟨e, hk, hy.imp_right fun ⟨act', hb, hs⟩ => ?_⟩, hl, hr⟩
  by_cases hba : e.stream.id = a
  · rw [hba] at hb ⊢
    rcases ht.stream act' y hb hs with hs | hle
    · exact ⟨act, ha, hs⟩
    · exact absurd hl (new_unfailed hle)
  · exact ⟨act', (ht.other _ hba).symm.trans hb, hs⟩

theorem Spared.tie (h : Spared s) {a : Nat} {act : StreamGetAction} (ha : s.mgr.action? a = some act)
    (hk : s.streamStore.lookup k = some e) (hid : e.stream.id = a) (hx : act.stream = some x) :
    Spared (tie { s with mgr := s.mgr.endAction a } k e x) := by
  refine h.of fun k' y ⟨e', hk', hy⟩ hl hr => ⟨?_, hl, hr⟩
  rcases lookup_insert_cases hk' with ⟨rfl, rfl⟩ | ⟨-, hk'⟩
  · -- the action that ends held what the entry is tied to
    refine ⟨e, hk, Or.inr ?_⟩
    rw [hid]
    rcases hy with hy | ⟨act', hb, -⟩
    · cases hy
      exact ⟨act, ha, hx⟩
    · simp only [Port.tie, Manager.action?_endAction ha, hid, if_true] at hb
      cases hb
  · refine ⟨e', hk', hy.imp_right ?_⟩
    rintro ⟨act', hb, hs⟩
    simp only [Port.tie, Manager.action?_endAction ha] at hb
    split at hb
    · cases hb
    · exact ⟨act', hb, hs⟩

theorem Spared.link (h : Spared s) (hi : Inv hash s) {st : LinkState} (hr : Released s (.link x st))
    (ha : alive s x = true) : Spared (linkUpdate s x st) := by
  have he := linkUpdate_erases s x st
  have hmgr : (linkUpdate s x st).mgr = s.mgr.setLinkState x st := he.mgr
  obtain ⟨f, hf⟩ := hi.alive_madeFor ha
  intro k y hk hl hrep
  have hrs := reported_of_given he hk hrep
  have hks := hk.of_erases he
  rw [hmgr] at hl
  by_cases hyx : y = x
  · subst hyx
    rw [Manager.linkState_setLinkState_self st hf] at hl
    subst hl
    obtain ⟨e, hk, hy | ⟨act, hact, hs⟩⟩ := hk
    · exact linkUpdate_releases hi ha k e hk hy
    · rw [hmgr] at hact
      exact (hr _ act hact hs).2 k e (he.sub k e hk) rfl hrs
  · rw [Manager.linkState_setLinkState_ne st hyx] at hl
    exact h k y hks hl hrs

theorem Spared.step {ev : Ev} (h : Spared s) (hp : Purged s) (hi : Inv hash s) (hr : Released s ev)
    (hs : step hash s ev = some t) : Spared t := by
  cases step_moved hi hs with
  | input d calls => exact h.input hp hi d calls
  | turn _ ha _ ht => exact h.turn ha ht
  | tie ha hk hid _ hx _ => exact h.tie ha hk hid hx
  | link ha _ => exact h.link hi hr ha
  | streamUpdate _ => exact h.erases (erases_emitUpdate s _)
  | forward _ hk _ => exact h.setBuffer hk _ _ _
  | packet _ _ => exact h

/-! ## A stream that fails while an action holds it -/

section Held

variable {a : Nat} {act : StreamGetAction}

/-- The action goes on with the failed stream. -/
theorem linkUpdate_held (hi : Inv hash s) (ha : s.mgr.action? a = some act) (hx : act.stream = some x) :
    step hash s (.link x .linkError) = some (linkUpdate s x .linkError) ∧
      (linkUpdate s x .linkError).mgr.action? a = some act ∧
      (linkUpdate s x .linkError).mgr.linkState x = .linkError := by
  have hmgr : (linkUpdate s x .linkError).mgr = s.mgr.setLinkState x .linkError :=
    (linkUpdate_erases s x .linkError).mgr
  have hal : alive s x = true := alive_iff.mpr (Or.inl ⟨a, act, ha, hx⟩)
  obtain ⟨f, hf⟩ := hi.alive_madeFor hal
  refine ⟨if_pos ⟨hal, fun _ => rfl⟩, ?_, ?_⟩
  · rw [hmgr]; exact ha
  · rw [hmgr]; exact Manager.linkState_setLinkState_self _ hf

/-- Where the cache has it, the next call for its id is served it. -/
theorem servesFailed_of_cached (hi : Inv hash s) (ha : s.mgr.action? a = some act) (hx : act.stream = some x)
    {id : ServerId} (hc : s.mgr.streamCache id = some x) : ServesFailed (linkUpdate s x .linkError) := by
  obtain ⟨-, ha', hl⟩ := linkUpdate_held hi ha hx
  have hmgr : (linkUpdate s x .linkError).mgr = s.mgr.setLinkState x .linkError :=
    (linkUpdate_erases s x .linkError).mgr
  refine ⟨id, x, ?_, hl⟩
  rw [getStream_hit (by rw [hmgr]; exact hc) (alive_iff.mpr (Or.inl ⟨a, act, ha', hx⟩)), Manager.action?_push]
  exact if_pos rfl

/-- The client that waits for the action is given it at the action's turn. -/
theorem hasFailed_of_waiting (hi : Inv hash s) (ha : s.mgr.action? a = some act) (hx : act.stream = some x)
    (hk : s.streamStore.lookup k = some e) (hid : e.stream.id = a) (hr : k ∈ s.reported) :
    ∃ t, step hash (linkUpdate s x .linkError) (.update a) = some t ∧ HasFailed t := by
  obtain ⟨hs, ha', hl⟩ := linkUpdate_held hi ha hx
  have he := linkUpdate_erases s x .linkError
  have hi' := step_inv hi hs
  -- the entry is not tied, so the link error leaves it in place
  obtain ⟨k₀, e₀, hk₀, hid₀, hn, -⟩ := hi.pending a act ha
  obtain rfl := hi.key_unique hk hk₀ (hid.trans hid₀.symm)
  obtain rfl := Option.some.inj (hk.symm.trans hk₀)
  have hk' : (linkUpdate s x .linkError).streamStore.lookup k = some e := by
    rcases he.erased k e hk with hk | ⟨-, hlink, -⟩
    · exact hk
    · simp [gwLinkState, hn] at hlink
  rcases hi'.update_cases ha' with ⟨hres, -⟩ | ⟨k', e', y, -, hl', hid', -, hy, -, hu⟩
  · exact absurd (Manager.stream_result (hi'.mgr.acts a act ha') hx) hres
  · obtain rfl := hi'.key_unique hk' hl' (hid.trans hid'.symm)
    obtain rfl := Option.some.inj (hk'.symm.trans hl')
    obtain rfl := Option.some.inj (hx.symm.trans hy)
    refine ⟨_, (congrArg (Option.bind · _) ha').trans hu, k, _, x, he.reported k hr, AList.lookup_insert _, rfl, hl⟩

end Held

theorem broken_step {ev : Ev} (hi : Inv hash s) (hr : ¬ Released s ev) :
    ∃ t, step hash s ev = some t ∧ ¬ Unfailed hash t := by
  cases ev with
  | link x st =>
    cases st with
    | linkError =>
      simp only [Released, not_forall, not_and_or, not_not] at hr
      obtain ⟨a, act, ha, hx, ⟨id, hc⟩ | ⟨k, e, hk, hid, hrep⟩⟩ := hr
      · exact ⟨_, (linkUpdate_held hi ha hx).1, fun h => h.served (servesFailed_of_cached hi ha hx hc)⟩
      · obtain ⟨t, ht, hf⟩ := hasFailed_of_waiting hi ha hx hk hid hrep
        exact ⟨_, (linkUpdate_held hi ha hx).1, fun h => h.given a t ht hf⟩
    | unlinked => exact absurd trivial hr
    | linked => exact absurd trivial hr
  | _ => exact absurd trivial hr

/-- Calls and clients that try again are given no failed stream exactly when none fails
    that a pending action holds which is cached or which such a client waits for. -/
theorem unfailed_iff (hash : ServerEndpoints → UInt64) (known : List Server) (es : List Ev) :
    Always (step hash) (Unfailed hash) (init known) es ↔ Meets (step hash) Released (init known) es := by
  refine always_iff_meets (I := fun s => Inv hash s ∧ Purged s ∧ Spared s) ?_ ?_ ?_
    ⟨init_inv known, ?_, ?_⟩
  · intro s ⟨hi, hp, h⟩
    refine ⟨hp.not_servesFailed, h.not_hasFailed, fun a t ht => ?_⟩
    have hr : Released s (.update a) := trivial
    exact (h.step hp hi hr ht).not_hasFailed
  · intro s ev t ⟨hi, hp, h⟩ hr hs
    exact ⟨step_inv hi hs, hp.step hi hr hs, h.step hp hi hr hs⟩
  · intro s ev ⟨hi, _⟩ hr
    exact broken_step hi hr
  · intro id x hc
    cases hc
  · intro k x hg
    obtain ⟨e, hk, -⟩ := hg
    simp [init] at hk

/-- A first client is tied to the stream of id 5, the second one's cache hit is pending
    when the stream fails: the third is given the failed stream. -/
theorem failed_stream_served :
    let es := [Ev.input 1 [.toServerId 1 5 []], .update 0, .update 0, .input 1 [.toServerId 2 5 []],
      .link 0 .linkError]
    ¬ Always (step fun _ => 0) (Unfailed fun _ => 0) (init [⟨5, []⟩]) es := by
  intro es h
  have hlast := always_exec h rfl
  exact hlast.served ⟨5, 0, by decide, by decide⟩

end AetherGateway.Port
