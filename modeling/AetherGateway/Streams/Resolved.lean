/-
  AetherGateway.Streams.Resolved — what a caller gets of a resolution, in every run (see
  `AetherGateway.Streams.Callers`).

  - `resolved`: a result is a stream that goes to a server of the id it was asked for
    (`Leads`).
  - `Over`: an action that has reported, or whose resolution has failed, reports no
    result any more (`failed_never_reports`).
-/

import AetherGateway.Streams.OneServer

namespace AetherGateway.Streams

/-- Stream `x` is there and goes to a server of the id. -/
def Manager.Leads (m : Manager) (x : Nat) (id : ServerId) : Prop :=
  ∃ st sv, m.streams[x]? = some st ∧ m.servers[st.server]? = some sv ∧ sv.serverId = id

theorem Manager.Genuine.leads {m : Manager} (h : m.Genuine) {x : Nat} {id : ServerId}
    (hx : m.madeFor x = some (.id id)) : m.Leads x id := by
  obtain ⟨st, hst, sv, hsv, hid⟩ := h.goes hx
  exact ⟨st, sv, hst, hsv, hid⟩

/-- An action's turn that is not its last leaves it able to come to a result. -/
theorem runAction_canResult {m : Manager} {a : Nat} {act : StreamGetAction} (ha : m.action? a = some act)
    (hc : act.canResult = true) (hr : (m.runAction a act).2 ≠ .result) :
    ∃ act', (m.runAction a act).1.action? a = some act' ∧ act'.canResult = true := by
  cases act with
  | existing o => exact absurd rfl hr
  | request r =>
    rcases Manager.runAction_request m a r with
      ⟨-, e⟩ | ⟨-, server, -, e⟩ | ⟨-, -, e⟩ | ⟨-, e⟩ | ⟨-, e⟩ | ⟨hst, -⟩
    · exact ⟨_, by rw [e]; exact ha, hc⟩
    · exact ⟨_, by rw [e]; exact (Manager.resolve_action? m a r server ha a).trans (if_pos rfl), rfl⟩
    · exact ⟨_, by rw [e]; exact (Manager.action?_setAction ha _ a).trans (if_pos rfl), rfl⟩
    · exact ⟨_, by rw [e]; exact (Manager.action?_setAction ha _ a).trans (if_pos rfl), rfl⟩
    · rw [e] at hr; exact absurd rfl hr
    · rw [StreamGetAction.canResult, hst] at hc
      cases hc

namespace Callers

open AetherGateway.Runs

variable {known : List Server} {es : List Ev} {s t : St} {a : Nat}

theorem resolved (hi : Inv s) (hg : s.mgr.Genuine) {o : Option Nat} {id : ServerId} {cache : Bool}
    (ho : (a, o) ∈ s.results) (hc : s.calls[a]? = some ⟨.id id, cache⟩) : ∃ x, o = some x ∧ s.mgr.Leads x id := by
  obtain ⟨x, c, hx, hc', hf⟩ := hi.results a o ho
  rw [hc] at hc'
  cases hc'
  exact ⟨x, hx, hg.leads hf⟩

/-! ## Actions that report no result any more -/

/-- The action has ended, or can come to no result. -/
def Over (s : St) (a : Nat) : Prop :=
  a < s.mgr.actions.length ∧ ∀ act, s.mgr.action? a = some act → act.canResult = false

theorem Over.call {c : List Call} {mgr : Manager} {act : StreamGetAction} (h : Over s a)
    (hlen : mgr.actions.length = s.mgr.actions.length + 1)
    (hact : ∀ b, mgr.action? b = if b = s.mgr.actions.length then some act else s.mgr.action? b) :
    Over { s with mgr := mgr, calls := c } a := by
  have hlt := h.1
  refine ⟨by rw [hlen]; omega, fun act' ha => h.2 act' ?_⟩
  rw [← ha]
  show _ = mgr.action? a
  rw [hact, if_neg (by omega)]

/-- An action whose cloud request runs can come to a result. -/
theorem Over.not_requesting (hi : Inv s) (h : Over s a) : s.mgr.requesting a = none := by
  cases hr : s.mgr.requesting a with
  | none => rfl
  | some r =>
    obtain ⟨ha, hg⟩ := Manager.requesting_some hr
    obtain ⟨hst, -⟩ := hi.mgr.waiting hr
    have hc := h.2 _ ha
    rw [StreamGetAction.canResult, hst, hg] at hc
    cases hc

/-- The turn of another action. -/
theorem Over.other {b : Nat} {act : StreamGetAction} {mgr : Manager} (h : Over s a) (hb : a ≠ b)
    (ht : s.mgr.Turn b act mgr) : a < mgr.actions.length ∧ ∀ act, mgr.action? a = some act → act.canResult = false := by
  refine ⟨by rw [ht.length]; exact h.1, fun act' ha => h.2 act' ?_⟩
  rw [← ht.other a hb]; exact ha

/-- The action's own turn is no result and leaves it so. -/
theorem Over.own {act : StreamGetAction} (h : Over s a) (ha : s.mgr.action? a = some act) :
    (s.mgr.runAction a act).2 ≠ .result ∧
      ∀ act', (s.mgr.runAction a act).1.action? a = some act' → act'.canResult = false := by
  have hc := h.2 act ha
  cases act with
  | existing o => cases hc
  | request r =>
    rcases Manager.runAction_request s.mgr a r with
      ⟨-, e⟩ | ⟨hst, server, -, -⟩ | ⟨hst, -, -⟩ | ⟨hst, -⟩ | ⟨hst, -⟩ | ⟨-, e⟩
    · rw [e]; exact ⟨by simp, h.2⟩
    · rw [StreamGetAction.canResult, hst] at hc; cases hc
    · rw [StreamGetAction.canResult, hst] at hc; cases hc
    · rw [StreamGetAction.canResult, hst] at hc; cases hc
    · rw [StreamGetAction.canResult, hst] at hc; cases hc
    · rw [e]
      refine ⟨by simp, fun act' h' => ?_⟩
      rw [Manager.action?_endAction ha, if_pos rfl] at h'
      cases h'

/-- An action that is over stays so, and reports nothing more. -/
theorem Over.step (hi : Inv s) (h : Over s a) {e : Ev} (hs : step s e = some t) :
    Over t a ∧ ∀ o, (a, o) ∈ t.results → (a, o) ∈ s.results := by
  cases step_moved hi hs with
  | call _ _ hact hlen _ _ _ _ => exact ⟨h.call hlen hact, fun o ho => ho⟩
  | @turn e b act mgr hb ha _ ht _ =>
    refine ⟨?_, fun o ho => ho⟩
    by_cases hab : a = b
    · subst hab
      have hn := h.not_requesting hi
      cases e with
      | update c =>
        obtain ⟨rfl, act', ha', -, rfl⟩ := hb
        exact ⟨by rw [ht.length]; exact h.1, (h.own ha').2⟩
      | servers c sds =>
        obtain ⟨r, hr, -⟩ := Manager.turn_onServers hb.2
        rw [hn] at hr; cases hr
      | serversError c =>
        obtain ⟨r, hr, -⟩ := Manager.turn_onServersError hb.2
        rw [hn] at hr; cases hr
      | serversStop c =>
        obtain ⟨r, hr, -⟩ := Manager.turn_onServersStop hb.2
        rw [hn] at hr; cases hr
      | _ => cases hb
    · exact h.other hab ht
  | @result b x act ha hr hx =>
    have hab : a ≠ b := by
      intro hab
      subst hab
      exact (h.own ha).1 hr
    refine ⟨h.other hab (Manager.turn_endAction ha), fun o ho => ?_⟩
    rcases List.mem_append.mp ho with ho | ho
    · exact ho
    · cases List.mem_singleton.mp ho
      exact absurd rfl hab
  | drop b => exact ⟨h, fun o ho => ho⟩

/-- What has reported is over. -/
theorem reported_over (h : exec step (init known) es = some s) {o : Option Nat} (ho : (a, o) ∈ s.results) :
    Over s a := by
  suffices hall : Inv s ∧ ∀ a o, (a, o) ∈ s.results → Over s a from hall.2 a o ho
  refine invariant (I := fun s => Inv s ∧ ∀ a o, (a, o) ∈ s.results → Over s a) ?_
    ⟨init_inv known, fun a o ho => by cases ho⟩ h
  intro s e t ⟨hi, hall⟩ hs
  refine ⟨step_inv hi hs, fun a o ho => ?_⟩
  by_cases hold : (a, o) ∈ s.results
  · exact ((hall a o hold).step hi hs).1
  · cases step_moved hi hs with
    | call _ _ _ _ _ _ _ _ => exact absurd ho hold
    | turn _ _ _ _ _ => exact absurd ho hold
    | @result b x act ha hr hx =>
      -- the action that reports ends
      cases List.mem_singleton.mp ((List.mem_append.mp ho).resolve_left hold)
      refine ⟨by simpa [Manager.endAction] using Manager.action?_lt ha, fun act' ha' => ?_⟩
      simp only [Manager.action?_endAction ha, if_true] at ha'
      cases ha'
    | drop b => exact absurd ho hold

def Fails (a : Nat) (e : Ev) : Prop := e = .serversError a ∨ e = .serversStop a

theorem fails_over (hi : Inv s) {e : Ev} (he : Fails a e) (hs : step s e = some t) : Over t a := by
  rcases he with rfl | rfl
  · obtain ⟨mgr, hm, rfl⟩ := Option.map_eq_some_iff.mp hs
    obtain ⟨r, hr, rfl⟩ := Option.map_eq_some_iff.mp hm
    have ha := (Manager.requesting_some hr).1
    refine ⟨by simpa [Manager.setAction] using Manager.action?_lt ha, fun act h => ?_⟩
    rw [Manager.action?_setAction ha, if_pos rfl] at h
    cases h; rfl
  · obtain ⟨mgr, hm, rfl⟩ := Option.map_eq_some_iff.mp hs
    obtain ⟨r, hr, rfl⟩ := Option.map_eq_some_iff.mp hm
    have ha := (Manager.requesting_some hr).1
    refine ⟨by simpa [Manager.setAction] using Manager.action?_lt ha, fun act h => ?_⟩
    rw [Manager.action?_setAction ha, if_pos rfl] at h
    cases h
    rw [StreamGetAction.canResult]
    simp only [(hi.mgr.waiting hr).1]; rfl

/-- After its resolution has failed an action never reports a result; nor did it before. -/
theorem failed_never_reports (h : exec step (init known) es = some s) {e : Ev} (he : Fails a e) (hmem : e ∈ es)
    (o : Option Nat) : (a, o) ∉ s.results := by
  obtain ⟨es₁, es₂, u, v, hu, hv, hs⟩ := exec_mem hmem h
  have hi := inv hu
  have hnone : ∀ o, (a, o) ∉ v.results := by
    intro o ho
    have hou : (a, o) ∈ u.results := by
      rcases he with rfl | rfl
      · obtain ⟨mgr, -, rfl⟩ := Option.map_eq_some_iff.mp hv; exact ho
      · obtain ⟨mgr, -, rfl⟩ := Option.map_eq_some_iff.mp hv; exact ho
    have hnot := (reported_over hu hou).not_requesting hi
    rcases he with rfl | rfl
    · simp only [step, Manager.onServersError, hnot] at hv; cases hv
    · simp only [step, Manager.onServersStop, hnot] at hv; cases hv
  have hlast := invariant (I := fun s => Inv s ∧ Over s a ∧ ∀ o, (a, o) ∉ s.results)
    (fun s e t ⟨hi, hov, hn⟩ ht =>
      ⟨step_inv hi ht, (hov.step hi ht).1, fun o ho => hn o ((hov.step hi ht).2 o ho)⟩)
    ⟨step_inv hi hv, fails_over hi he hv, hnone⟩ hs
  exact hlast.2.2 o

end Callers

end AetherGateway.Streams
