/-
  AetherGateway.Port.Resolution — what comes of a resolution: for its caller (see
  `AetherGateway.Streams.Resolved`), and for a stored stream whose action is to tie it (see
  `AetherGateway.Port.LocalPort`).

  - `resolved_valid`: a result is a stream of a server of the requested id, a failed
    resolution reports none, and the result handler's stream is never null.

  The entry is there before the resolution ends, and only a link error removes it; the
  stream handles the action's result and not its error, and a cloud request that is
  stopped is told to nobody.
  - `noDead_iff`: in a run every entry is tied or can still be tied by its action exactly
    when no cloud request of a resolution fails or is stopped.
  - `dead_entry`: after a failed request the entry stays, and takes the next call's data.
-/

import AetherGateway.Port.Routing
import AetherGateway.Streams.Resolved

namespace AetherGateway.Port

open AetherGateway.Streams AetherGateway.Runs

variable {hash : ServerEndpoints → UInt64} {s t : St} {k : Key} {e : StreamStore}

/-- A result handler never meets a null stream: each turn of a pending action goes through. -/
theorem update_defined (hi : Inv hash s) {a : Nat} {act : StreamGetAction} (ha : s.mgr.action? a = some act) :
    (step hash s (.update a)).isSome = true := by
  simp only [step, ha, Option.bind_some]
  rcases hi.update_cases ha with ⟨-, h⟩ | ⟨k, e, x, -, -, -, -, -, -, h⟩
  · rw [h]; rfl
  · rw [h]; rfl

/-- In every run of the manager's callers a result, and a cache entry that has not expired,
    is a stream that goes to a server of the id it is for, and a failed resolution reports
    no result; so no run of the port meets a null stream in a result handler. -/
theorem resolved_valid {known : List Server} {es : List Callers.Ev} {s : Callers.St}
    (ha : Meets Callers.step Callers.Answering (Callers.init known) es)
    (hs : exec Callers.step (Callers.init known) es = some s) :
    (∀ a o id cache, (a, o) ∈ s.results → s.calls[a]? = some ⟨.id id, cache⟩ →
      ∃ x, o = some x ∧ s.mgr.Leads x id) ∧
    (∀ a e, Callers.Fails a e → e ∈ es → ∀ o, (a, o) ∉ s.results) ∧
    (∀ id x, s.mgr.streamCache id = some x → Callers.alive s x = true → s.mgr.Leads x id) ∧
    ∀ (hash : ServerEndpoints → UInt64) (es' : List Ev), Always (step hash)
      (fun s => ∀ a act, s.mgr.action? a = some act → (step hash s (.update a)).isSome = true) (init known) es' := by
  have hi := Callers.inv hs
  have hg := Callers.kept Manager.genuine_kept (Manager.init_genuine known) ha hs
  refine ⟨fun a o id cache ho hc => Callers.resolved hi hg ho hc,
    fun a e he hmem => Callers.failed_never_reports hs he hmem,
    fun id x hx _ => hg.leads (hi.mgr.cached id x hx), fun hash es' => ?_⟩
  exact always_of_invariant (I := Inv hash) (fun s hi a act ha => update_defined hi ha)
    (fun _ _ _ hi ht => step_inv hi ht) (init_inv known)

/-- The cloud answers for id 5: the caller gets a stream to the new server. -/
theorem resolved_valid_answer :
    let es := [Callers.Ev.getStream 5 true, .update 0, .update 0, .servers 0 [⟨5, []⟩], .update 0]
    ∃ s, exec Callers.step (Callers.init []) es = some s ∧ s.results = [(0, some 0)] ∧ s.mgr.Leads 0 5 := by
  intro es
  refine ⟨_, rfl, rfl, ?_⟩
  have hm : Meets Callers.step Callers.Answering (Callers.init []) es := by decide
  obtain ⟨h, -⟩ := resolved_valid hm rfl
  obtain ⟨x, hx, hl⟩ := h 0 (some 0) 5 true (by decide) rfl
  cases hx
  exact hl

/-- The entry's stream is tied, or its action is pending and can still come to a result. -/
def Live (s : St) (e : StreamStore) : Prop :=
  e.stream.serverStream ≠ none ∨
    ∃ act, s.mgr.action? e.stream.getServerStreamSub = some act ∧ act.canResult = true

def NoDead (s : St) : Prop := ∀ k e, s.streamStore.lookup k = some e → Live s e

/-- No cloud request of a resolution fails or is stopped. -/
def NoFailure (s : St) : Ev → Prop
  | .serversError a => s.mgr.requesting a = none
  | .serversStop a => s.mgr.requesting a = none
  | _ => True

/-! ## What keeps the entries alive -/

/-- A step that keeps the actions that can come to a result, and adds no other entry. -/
theorem NoDead.of (h : NoDead s)
    (hact : ∀ a act, s.mgr.action? a = some act → act.canResult = true →
      ∃ act', t.mgr.action? a = some act' ∧ act'.canResult = true)
    (hold : ∀ k e, t.streamStore.lookup k = some e → Live t e ∨
      ∃ e₀, s.streamStore.lookup k = some e₀ ∧ e.stream.getServerStreamSub = e₀.stream.getServerStreamSub ∧
        e.stream.serverStream = e₀.stream.serverStream) : NoDead t := by
  intro k e hk
  rcases hold k e hk with hl | ⟨e₀, h₀, hsub, hst⟩
  · exact hl
  · rcases h k e₀ h₀ with ht | ⟨act, ha, hc⟩
    · exact Or.inl (by rw [hst]; exact ht)
    · obtain ⟨act', ha', hc'⟩ := hact _ act ha hc
      exact Or.inr ⟨act', by rw [hsub]; exact ha', hc'⟩

/-- The other actions are not touched, so an action's turn that leaves it able to come to
    a result keeps every entry alive. -/
theorem NoDead.turn (h : NoDead s) {a : Nat} {act act' : StreamGetAction} {m : Manager} (ht : s.mgr.Turn a act m)
    (ha : m.action? a = some act') (hc : act'.canResult = true) : NoDead { s with mgr := m } := by
  refine h.of (fun b act₀ hb hb' => ?_) fun k e hk => Or.inr ⟨e, hk, rfl, rfl⟩
  by_cases hba : b = a
  · subst hba
    exact ⟨act', ha, hc⟩
  · exact ⟨act₀, by rw [← hb]; exact ht.other b hba, hb'⟩

/-- Removing entries kills no other. -/
theorem NoDead.erases (h : NoDead s) (he : Erases s t) : NoDead t :=
  h.of (fun _ act ha hc => ⟨act, by rw [he.mgr]; exact ha, hc⟩) fun k e hk => Or.inr ⟨e, he.sub k e hk, rfl, rfl⟩

theorem NoDead.setBuffer (h : NoDead s) (hk : s.streamStore.lookup k = some e) (b : List DataBuffer) (ws : List Write)
    (hs : List Handed) :
    NoDead { s with
      streamStore := s.streamStore.insert k { e with stream := { e.stream with buffer := b } }
      writes := ws
      handed := hs } := by
  refine h.of (fun a act ha hc => ⟨act, ha, hc⟩) fun k' e' hk' => Or.inr ?_
  rcases lookup_insert_cases hk' with ⟨rfl, rfl⟩ | ⟨-, hk'⟩
  · exact ⟨e, hk, rfl, rfl⟩
  · exact ⟨e', hk', rfl, rfl⟩

/-- The action a new stream asks for can come to a result. -/
theorem gwStream_canResult (hi : Inv hash s) (server : ServeKind) :
    ∃ act, (gwStream s server).1.action? s.made.length = some act ∧ act.canResult = true := by
  cases server with
  | id i =>
    show ∃ act, (s.mgr.getStream (alive s) i true).1.action? s.made.length = some act ∧ _
    rw [← hi.length]
    rcases Manager.getStream_cases s.mgr (alive s) i true with ⟨-, x, -, -, e⟩ | ⟨-, -, e⟩ | ⟨hf, -⟩
    · exact ⟨.existing (some x), by rw [e, Manager.action?_push]; exact if_pos rfl, rfl⟩
    · exact ⟨.request (.make i), by rw [e, Manager.action?_push]; exact if_pos rfl, rfl⟩
    · cases hf
  | endpoints ep =>
    exact ⟨.existing (some s.mgr.streams.length),
      by rw [← hi.length]; exact (Manager.getStreamTo_action? s.mgr ep _).trans (if_pos rfl), rfl⟩

theorem NoDead.openStream (h : NoDead s) (hi : Inv hash s) (f : Flow) : NoDead (openStream hash s f) := by
  cases hk : s.streamStore.lookup (f.key hash) with
  | some e => rw [openStream_found hk]; exact h
  | none =>
    obtain ⟨act, hg, -, hact, -, -, -⟩ := hi.gwStream f.server
    obtain ⟨act', ha, hc⟩ := gwStream_canResult hi f.server
    rw [openStream_new hk, hg]
    refine h.of (fun a act₀ ha₀ hc₀ => ⟨act₀, ?_, hc₀⟩) fun k e he => ?_
    · have hlt := Manager.action?_lt ha₀
      rw [hi.length] at hlt
      show (gwStream s f.server).1.action? a = some act₀
      rw [hact, if_neg (by omega)]; exact ha₀
    · rcases lookup_insert_cases he with ⟨rfl, rfl⟩ | ⟨-, he⟩
      · exact Or.inl (Or.inr ⟨act', ha, hc⟩)
      · exact Or.inr ⟨e, he, rfl, rfl⟩

theorem NoDead.input (h : NoDead s) (hi : Inv hash s) (d : UInt8) (calls : List Call) :
    NoDead (input hash d s calls) := by
  unfold Port.input
  induction calls generalizing s with
  | nil => exact h
  | cons c calls ih =>
    refine ih ?_ (hi.api d c)
    obtain ⟨e, he, -⟩ := openStream_lookup hash s (c.flow d)
    rw [api, write_stored he c.data]
    exact (h.openStream hi _).setBuffer he _ _ _

/-- The action that an entry waits for can come to a result. -/
theorem NoDead.canResult (h : NoDead s) (hi : Inv hash s) {a : Nat} {act : StreamGetAction}
    (ha : s.mgr.action? a = some act) : act.canResult = true := by
  obtain ⟨k, e, hk, hid, hn, -⟩ := hi.pending a act ha
  rcases h k e hk with ht | ⟨act', ha', hc⟩
  · exact absurd hn ht
  · rw [hi.sub k e hk, hid, ha] at ha'
    cases ha'; exact hc

/-- The action that ends with a result was the tied entry's own. -/
theorem NoDead.tie (h : NoDead s) (hi : Inv hash s) {a : Nat} {act : StreamGetAction}
    (ha : s.mgr.action? a = some act) (hk : s.streamStore.lookup k = some e) (hid : e.stream.id = a) (x : Nat) :
    NoDead (tie { s with mgr := s.mgr.endAction a } k e x) := by
  intro k' e' hk'
  rcases lookup_insert_cases hk' with ⟨rfl, rfl⟩ | ⟨hne, hk'⟩
  · exact Or.inl (fun hn => by cases hn)
  · rcases h k' e' hk' with ht | ⟨act', ha', hc⟩
    · exact Or.inl ht
    · refine Or.inr ⟨act', ?_, hc⟩
      have hother : e'.stream.getServerStreamSub ≠ a := by
        intro he
        rw [hi.sub k' e' hk', ← hid] at he
        exact hne (hi.key_unique hk' hk he)
      show (s.mgr.endAction a).action? _ = _
      rw [Manager.action?_endAction ha, if_neg hother]; exact ha'

theorem NoDead.step {ev : Ev} (h : NoDead s) (hi : Inv hash s) (hf : NoFailure s ev) (hs : step hash s ev = some t) :
    NoDead t := by
  cases step_moved hi hs with
  | input d calls => exact h.input hi d calls
  | @turn ev a act m hm ha _ ht =>
    cases ev with
    | update b =>
      obtain ⟨act', hb, hr, rfl⟩ := hm
      obtain ⟨act'', hb', hc⟩ := runAction_canResult hb (h.canResult hi hb) hr
      exact h.turn (Manager.turn_runAction hb) hb' hc
    | servers b sds =>
      obtain ⟨r, hr, htn⟩ := Manager.turn_onServers hm
      obtain ⟨sd, rest, r', -, hr', rfl⟩ := Manager.onServers_some hm
      have hb := (Manager.requesting_some hr').1
      rw [← Manager.action?_congr (Manager.buildServer_actions sd.serverId (Manager.endpointsOf sd))] at hb
      exact h.turn htn ((Manager.resolve_action? _ b _ _ hb b).trans (if_pos rfl)) rfl
    | serversError b =>
      obtain ⟨r, hr, -⟩ := Manager.turn_onServersError hm
      rw [hf] at hr; cases hr
    | serversStop b =>
      obtain ⟨r, hr, -⟩ := Manager.turn_onServersStop hm
      rw [hf] at hr; cases hr
    | _ => cases hm
  | @tie a x act k e ha hk hid hn _ _ =>
    exact h.tie hi ha hk hid x
  | @link x st _ _ =>
    have hl : NoDead { s with mgr := s.mgr.setLinkState x st } :=
      h.of (fun a act ha hc => ⟨act, ha, hc⟩) fun k e hk => Or.inr ⟨e, hk, rfl, rfl⟩
    exact hl.erases (linkUpdate_erases s x st)
  | streamUpdate _ => exact h.erases (erases_emitUpdate s _)
  | forward _ hk _ => exact h.setBuffer hk _ _ _
  | packet _ _ => exact h

/-- After its cloud request has failed or was stopped an action comes to no result. -/
theorem dead_step {ev : Ev} (hi : Inv hash s) (hf : ¬ NoFailure s ev) : ∃ t, step hash s ev = some t ∧ ¬ NoDead t := by
  -- the entry of the action `r`, which waits for its cloud request, is not tied
  have dead : ∀ a r r', s.mgr.requesting a = some r → (StreamGetAction.request r').canResult = false →
      ¬ NoDead { s with mgr := s.mgr.setAction a (.request r') } := by
    intro a r r' hr hc hn
    have ha := (Manager.requesting_some hr).1
    obtain ⟨k, e, hk, hid, ht, -⟩ := hi.pending a _ ha
    rcases hn k e hk with h | ⟨act, hact, hc'⟩
    · exact h ht
    · simp only [Manager.action?_setAction ha, hi.sub k e hk, hid, if_true] at hact
      cases hact
      rw [hc] at hc'; cases hc'
  cases ev with
  | serversError a =>
    cases hr : s.mgr.requesting a with
    | none => exact absurd hr hf
    | some r =>
      refine ⟨_, ?_, dead a r { r with getServers := .ended, state := .set .error } hr rfl⟩
      simp only [step, Manager.onServersError, hr, Option.map_some]
  | serversStop a =>
    cases hr : s.mgr.requesting a with
    | none => exact absurd hr hf
    | some r =>
      have hst := (hi.mgr.waiting hr).1
      refine ⟨_, ?_, dead a r { r with getServers := .ended } hr ?_⟩
      · simp only [step, Manager.onServersStop, hr, Option.map_some]
      · rw [StreamGetAction.canResult]
        simp only [hst]
        rfl
  | _ => exact absurd trivial hf

/-- No entry is ever dead exactly when no cloud request of a resolution fails or is
    stopped. -/
theorem noDead_iff (hash : ServerEndpoints → UInt64) (known : List Server) (es : List Ev) :
    Always (step hash) NoDead (init known) es ↔ Meets (step hash) NoFailure (init known) es := by
  refine always_iff_meets (I := fun s => Inv hash s ∧ NoDead s) (fun s h => h.2) ?_ ?_ ⟨init_inv known, ?_⟩
  · intro s ev t ⟨hi, h⟩ hf hs
    exact ⟨step_inv hi hs, h.step hi hf hs⟩
  · intro s ev ⟨hi, _⟩ hf
    exact dead_step hi hf
  · intro k e hk
    simp [init] at hk

/-- The request for id 5 fails; the entry stays, and the next call is appended to it. -/
theorem dead_entry :
    let es := [Ev.input 1 [.toServerId 1 5 [10]], .update 0, .update 0, .serversError 0, .update 0,
      .input 1 [.toServerId 1 5 [20]]]
    ¬ Always (step fun _ => 0) NoDead (init []) es := by
  intro es h
  have hlast := always_exec h rfl
  rcases hlast ⟨1, 1, 5⟩ ⟨.id 5, ⟨0, .id 5, 0, none, [[10], [20]]⟩⟩ (by decide) with ht | ⟨act, ha, -⟩
  · exact ht rfl
  · change none = some act at ha
    cases ha

end AetherGateway.Port
