/-
  AetherGateway.Streams.Progress — every resolution comes to an end (see
  `AetherGateway.Streams.Callers`).

  An action's `Update` does something when its state machine was set; a running cloud
  request ends by servers, by an error or by being stopped. These are the moves of the
  manager's own (`moves`); an action has four of them at most (`rank`).
  - `turns_bounded`: a run has at most four own moves for each call, each call is answered
    once at most, and the manager comes to rest only when no action is left but those
    whose cloud request was stopped.
  - `answers_all`: from every reachable state `Update`s and right answers of the cloud, at most
    four for each call, bring every call to its result that has not failed or been stopped by
    then.
-/

import AetherGateway.Progress
import AetherGateway.Streams.Servers
import AetherGateway.Streams.Resolved

namespace AetherGateway.Streams

/-! ## The moves an action has left -/

def StreamGetAction.moves : StreamGetAction → Bool
  | .existing _ => true
  | .request r => r.state.changed

def StreamGetAction.rank : StreamGetAction → Nat
  | .existing _ => 1
  | .request r =>
    match r.state with
    | ⟨.checkServerExists, true⟩ => 4
    | ⟨.requestServer, true⟩ => 3
    | ⟨.requestServer, false⟩ => if r.getServers = .running then 2 else 0
    | ⟨_, true⟩ => 1
    | ⟨_, false⟩ => 0

/-- The action waits for a cloud request that was stopped. -/
def StreamGetAction.stopped : StreamGetAction → Bool
  | .existing _ => false
  | .request r => r.state == ⟨.requestServer, false⟩ && r.getServers == .ended

theorem StreamGetAction.rank_le (act : StreamGetAction) : act.rank ≤ 4 := by
  unfold rank
  repeat' split
  all_goals omega

namespace Manager

variable {m m' : Manager} {a : Nat} {act : StreamGetAction} {r : RequestServerStreamGetAction}

def pending (m : Manager) : Nat := (m.actions.map fun o => o.elim 0 StreamGetAction.rank).sum

/-- An action gives way to what is left of it. -/
theorem pending_set (ha : m.action? a = some act) (o : Option StreamGetAction) (hm : m'.actions = m.actions.set a o) :
    m'.pending + act.rank = m.pending + o.elim 0 StreamGetAction.rank := by
  have hget : m.actions[a]? = some (some act) := Option.join_eq_some_iff.mp ha
  unfold pending
  rw [hm, List.map_set]
  exact Runs.sum_set _ (by rw [List.getElem?_map, hget]; rfl)

theorem pending_push (hm : m'.actions = m.actions ++ [some act]) : m'.pending ≤ m.pending + 4 := by
  have := act.rank_le
  simp only [pending, hm, List.map_append, List.sum_append, List.map_cons, List.map_nil, Option.elim_some,
    List.sum_singleton]
  omega

theorem pending_le (m : Manager) : m.pending ≤ 4 * m.actions.length := by
  unfold pending
  induction m.actions with
  | nil => simp
  | cons o l ih =>
    have ho : o.elim 0 StreamGetAction.rank ≤ 4 := by
      cases o with
      | none => exact Nat.zero_le _
      | some act => exact act.rank_le
    simp only [List.map_cons, List.sum_cons, List.length_cons]
    omega

theorem runAction_lowers (ha : m.action? a = some act) (hm : act.moves = true) :
    (m.runAction a act).1.pending < m.pending := by
  have keeps : ∀ {m' : Manager} o, m'.actions = m.actions.set a o →
      o.elim 0 StreamGetAction.rank < act.rank → m'.pending < m.pending := by
    intro m' o e hlt
    have := pending_set ha o e
    omega
  cases act with
  | existing o => exact keeps none rfl (Nat.zero_lt_one)
  | request r =>
    rcases runAction_request m a r with ⟨hn, -⟩ | ⟨hst, v, -, e⟩ | ⟨hst, -, e⟩ | ⟨hst, e⟩ | ⟨hst, e⟩ | ⟨hst, e⟩
    · exact absurd hm (by rw [StreamGetAction.moves, hn]; decide)
    all_goals
      rw [e]
      refine keeps _ rfl ?_
      simp [StreamGetAction.rank, hst, StateMachine.set]

/-- An `Update` that does nothing leaves the manager as it is. -/
theorem runAction_still (hm : act.moves = false) : m.runAction a act = (m, .none) := by
  cases act with
  | existing o => cases hm
  | request r =>
    have hch : r.state.changed = false := hm
    simp only [runAction, update, updateRequest, hch, Bool.false_eq_true, if_false]

/-- A request that is answered or fails has one move left, one that is stopped has none. -/
theorem requesting_lowers (h : m.Inv) (hr : m.requesting a = some r) {r' : RequestServerStreamGetAction}
    (hm : m'.actions = m.actions.set a (some (.request r'))) (hlt : (StreamGetAction.request r').rank < 2) :
    m'.pending < m.pending := by
  obtain ⟨ha, hg⟩ := requesting_some hr
  have hw : (StreamGetAction.request r).rank = 2 := by simp [StreamGetAction.rank, (h.waiting hr).1, hg]
  have := pending_set ha _ hm
  simp only [Option.elim_some] at this
  omega

/-- A pending action moves, waits for its cloud request, or for one that was stopped. -/
theorem Inv.phases (h : m.Inv) (ha : m.action? a = some act) :
    act.moves = true ∨ (∃ r, m.requesting a = some r) ∨ act.stopped = true := by
  cases act with
  | existing o => exact Or.inl rfl
  | request r =>
    have hp := (h.acts a _ ha).1
    have hrun : r.getServers = .running → m.requesting a = some r := fun hg => by
      simp only [requesting, ha, hg, if_true]
    obtain ⟨id, ⟨v, c⟩, g, o⟩ := r
    cases c with
    | true => exact Or.inl rfl
    | false =>
      cases g with
      | running => exact Or.inr (Or.inl ⟨_, hrun rfl⟩)
      | none => revert hp; cases v <;> cases o <;> simp [phaseOk]
      | ended => revert hp; cases v <;> cases o <;> simp [phaseOk, StreamGetAction.stopped]

theorem stopped_still (h : act.stopped = true) : act.moves = false ∧ act.canResult = false := by
  cases act with
  | existing o => cases h
  | request r =>
    obtain ⟨id, ⟨v, c⟩, g, o⟩ := r
    revert h; cases v <;> cases c <;> cases g <;>
      simp [StreamGetAction.stopped, StreamGetAction.moves, StreamGetAction.canResult]

theorem stopped_not_requesting (ha : m.action? a = some act) (h : act.stopped = true) : m.requesting a = none := by
  cases hr : m.requesting a with
  | none => rfl
  | some r =>
    obtain ⟨ha', hg⟩ := requesting_some hr
    cases Option.some.inj (ha.symm.trans ha')
    simp [StreamGetAction.stopped, hg] at h

end Manager

namespace Callers

open AetherGateway.Runs

variable {known : List Server} {es : List Ev} {s t : St} {e : Ev} {a : Nat}

/-- A move of the manager's own: an `Update` that does something, or the end of a cloud request. -/
def own (s : St) : Ev → Bool
  | .update a => (s.mgr.action? a).elim false StreamGetAction.moves
  | .servers _ _ | .serversError _ | .serversStop _ => true
  | .getStream _ _ | .getStreamTo _ | .drop _ => false

theorem step_lowers (h : Inv s) (ho : own s e = true) (hs : step s e = some t) : t.mgr.pending < s.mgr.pending := by
  cases e with
  | update a =>
    obtain ⟨act, ha, rfl⟩ := Option.map_eq_some_iff.mp hs
    rw [update_mgr]
    exact Manager.runAction_lowers ha (by simpa [own, ha] using ho)
  | servers a sds =>
    obtain ⟨mgr, hm, rfl⟩ := Option.map_eq_some_iff.mp hs
    obtain ⟨sd, rest, r, -, hr, rfl⟩ := Manager.onServers_some hm
    refine Manager.requesting_lowers h.mgr hr (congrArg (List.set · a _) (Manager.buildServer_actions _ _)) ?_
    exact Nat.one_lt_two
  | serversError a =>
    obtain ⟨mgr, hm, rfl⟩ := Option.map_eq_some_iff.mp hs
    obtain ⟨r, hr, rfl⟩ := Option.map_eq_some_iff.mp hm
    exact Manager.requesting_lowers h.mgr hr rfl Nat.one_lt_two
  | serversStop a =>
    obtain ⟨mgr, hm, rfl⟩ := Option.map_eq_some_iff.mp hs
    obtain ⟨r, hr, rfl⟩ := Option.map_eq_some_iff.mp hm
    refine Manager.requesting_lowers h.mgr hr rfl ?_
    simp [StreamGetAction.rank, (h.mgr.waiting hr).1]
  | getStream | getStreamTo | drop => cases ho

theorem ranked : Ranked step own Inv (·.mgr.pending) :=
  ⟨fun _ _ _ hi _ hs => step_inv hi hs, fun _ _ _ hi ho hs => step_lowers hi ho hs⟩

def gain (e : Ev) : Nat := 4 * e.call?.toList.length

theorem step_gain (ho : own s e = false) (hs : step s e = some t) : t.mgr.pending ≤ s.mgr.pending + gain e := by
  cases e with
  | getStream id cache =>
    cases hs
    show (s.mgr.getStream (alive s) id cache).1.pending ≤ s.mgr.pending + 4
    rcases Manager.getStream_cases s.mgr (alive s) id cache with ⟨-, x, -, -, e⟩ | ⟨-, -, e⟩ | ⟨-, e⟩ <;> rw [e]
    · exact Manager.pending_push (m := s.mgr) rfl
    · exact Manager.pending_push (m := s.mgr) rfl
    · exact Manager.pending_push rfl
  | getStreamTo e =>
    cases hs
    exact Manager.pending_push (m := s.mgr) (congrArg (· ++ _) (Manager.buildServer_actions 0 e))
  | update a =>
    obtain ⟨act, ha, rfl⟩ := Option.map_eq_some_iff.mp hs
    rw [update_mgr, Manager.runAction_still (by simpa [own, ha] using ho)]
    exact Nat.le_refl _
  | drop a => cases hs; exact Nat.le_refl _
  | servers | serversError | serversStop => cases ho

/-- The calls of a run are those its events make. -/
theorem step_calls (h : Inv s) (hs : step s e = some t) : t.calls = s.calls ++ e.call?.toList := by
  cases step_moved h hs with
  | call hc => rw [hc]; rfl
  | turn ht =>
    cases e with
    | getStream | getStreamTo | drop => cases ht
    | update | servers | serversError | serversStop => exact (List.append_nil _).symm
  | result => exact (List.append_nil _).symm
  | drop => exact (List.append_nil _).symm

theorem calls_gain (h : Inv s) (hx : exec step s es = some t) :
    4 * t.calls.length = 4 * s.calls.length + (es.map gain).sum := by
  induction es generalizing s with
  | nil =>
    cases hx
    rfl
  | cons e es ih =>
    obtain ⟨u, hu, hx⟩ := exec_cons_some.mp hx
    have hrest := ih (step_inv h hu) hx
    rw [step_calls h hu, List.length_append] at hrest
    simp only [List.map_cons, List.sum_cons, gain] at hrest ⊢
    omega

/-! ## Each call is answered at most once -/

/-- The actions that have reported their result: each once, and none of them is pending. -/
structure Answered (s : St) : Prop where
  inv : Inv s
  once : (s.results.map Prod.fst).Nodup
  gone : ∀ a o, (a, o) ∈ s.results → s.mgr.action? a = none ∧ a < s.mgr.actions.length

theorem step_answered (h : Answered s) (hs : step s e = some t) : Answered t := by
  have hi := step_inv h.inv hs
  cases step_moved h.inv hs with
  | call _ _ hact hlen =>
    refine ⟨hi, h.once, fun a o ho => ?_⟩
    obtain ⟨hn, hlt⟩ := h.gone a o ho
    simp only [hact, hlen]
    exact ⟨by rw [if_neg (by omega)]; exact hn, by omega⟩
  | turn _ hb _ ht =>
    refine ⟨hi, h.once, fun a o ho => ?_⟩
    obtain ⟨hn, hlt⟩ := h.gone a o ho
    have hne : a ≠ _ := fun e => by rw [e, hb] at hn; cases hn
    exact ⟨(ht.other a hne).trans hn, by rw [ht.length]; exact hlt⟩
  | @result b x act hb =>
    have ht := Manager.turn_endAction hb
    refine ⟨hi, ?_, fun a o ho => ?_⟩
    · rw [List.map_append, List.map_singleton, List.nodup_append]
      refine ⟨h.once, by simp, fun a ha c hc => ?_⟩
      obtain ⟨⟨a, o⟩, ho, rfl⟩ := List.mem_map.mp ha
      rintro rfl
      cases List.mem_singleton.mp hc
      exact absurd hb (by rw [(h.gone _ o ho).1]; nofun)
    · rcases List.mem_append.mp ho with ho | ho
      · obtain ⟨hn, hlt⟩ := h.gone a o ho
        have hne : a ≠ b := fun e => by rw [e, hb] at hn; cases hn
        exact ⟨(ht.other a hne).trans hn, by rw [ht.length]; exact hlt⟩
      · cases List.mem_singleton.mp ho
        exact ⟨by rw [Manager.action?_endAction hb, if_pos rfl], by rw [ht.length]; exact Manager.action?_lt hb⟩
  | drop => exact ⟨hi, h.once, h.gone⟩

theorem answered (h : exec step (init known) es = some s) : Answered s :=
  invariant (fun _ _ _ => step_answered) ⟨init_inv known, List.nodup_nil, fun _ _ ho => by cases ho⟩ h

/-- The manager rests when the only actions left wait for a cloud request that was stopped. -/
theorem quiet_iff (h : Inv s) : Quiet step own s ↔ ∀ a act, s.mgr.action? a = some act → act.stopped = true := by
  constructor
  · intro hq a act ha
    rcases h.mgr.phases ha with hm | ⟨r, hr⟩ | hst
    · have hn := hq (.update a) (by simpa [own, ha] using hm)
      simp [step, ha] at hn
    · have hn := hq (.serversStop a) rfl
      simp [step, Manager.onServersStop, hr] at hn
    · exact hst
  · intro hall e ho
    have still : ∀ a, s.mgr.requesting a = none := by
      intro a
      cases hr : s.mgr.requesting a with
      | none => rfl
      | some r =>
        have ha := (Manager.requesting_some hr).1
        rw [Manager.stopped_not_requesting ha (hall a _ ha)] at hr
        cases hr
    cases e with
    | update a =>
      cases ha : s.mgr.action? a with
      | none => simp [step, ha]
      | some act =>
        have hm := (Manager.stopped_still (hall a act ha)).1
        simp [own, ha, hm] at ho
    | servers a sds => cases sds <;> simp [step, Manager.onServers, still a]
    | serversError a => simp [step, Manager.onServersError, still a]
    | serversStop a => simp [step, Manager.onServersStop, still a]
    | getStream | getStreamTo | drop => cases ho

/-- A run has four moves of the manager's own for each call at most; each call is answered
    once at most; and the manager rests exactly when every call has ended but for those
    whose cloud request was stopped. -/
theorem turns_bounded (h : exec step (init known) es = some s) :
    ownMoves step own (init known) es ≤ 4 * s.calls.length ∧ (s.results.map Prod.fst).Nodup ∧
      (Quiet step own s ↔ ∀ a act, s.mgr.action? a = some act → act.stopped = true) := by
  have hcount := ranked.count (fun _ _ _ => step_inv) (fun _ _ _ _ => step_gain) (init_inv known) h
  have hcalls := calls_gain (init_inv known) h
  simp only [init, Manager.pending, Manager.init, List.map_nil, List.sum_nil, List.length_nil] at hcount hcalls
  exact ⟨by simp only [init, Manager.init]; omega, (answered h).once, quiet_iff (answered h).inv⟩

/-- One call, answered by the cloud: four moves. -/
theorem turns_bounded_one :
    ∃ s, exec step (init []) [.getStream 5 true, .update 0, .update 0, .servers 0 [⟨5, []⟩], .update 0] = some s ∧
      ownMoves step own (init [])
        [.getStream 5 true, .update 0, .update 0, .servers 0 [⟨5, []⟩], .update 0] = 4 * s.calls.length ∧
      (s.results.map Prod.fst).Nodup :=
  ⟨_, rfl, rfl, (turns_bounded (rfl : exec step (init [])
    [.getStream 5 true, .update 0, .update 0, .servers 0 [⟨5, []⟩], .update 0] = some _)).2.1⟩

/-! ## Every call that can be answered is -/

/-- The call has been answered, or its action can still come to a result. -/
def Open (s : St) (a : Nat) : Prop :=
  (∃ x, (a, some x) ∈ s.results) ∨ ∃ act, s.mgr.action? a = some act ∧ act.canResult = true

/-- An `Update` that does something, or the cloud's answer with a server of the id asked for. -/
def helps (s : St) : Ev → Bool
  | .update a => own s (.update a)
  | .servers a sds => s.mgr.Answered a sds
  | _ => false

theorem helps_own (h : helps s e = true) : own s e = true := by
  cases e with
  | update => exact h
  | servers => rfl
  | getStream | getStreamTo | serversError | serversStop | drop => cases h

theorem helps_open (h : Inv s) (hh : helps s e = true) (hs : step s e = some t) (ho : Open s a) : Open t a := by
  cases step_moved h hs with
  | call hc =>
    cases e with
    | getStream | getStreamTo | serversError | serversStop | drop => cases hh
    | update | servers => cases hc
  | @turn e b act mgr hto hb _ ht =>
    rcases ho with ho | ⟨act', ha, hc⟩
    · exact Or.inl ho
    · by_cases hab : a = b
      · subst hab
        cases e with
        | update c =>
          obtain ⟨rfl, act₂, h₂, hr, rfl⟩ := hto
          cases Option.some.inj (ha.symm.trans h₂)
          exact Or.inr (runAction_canResult ha hc hr)
        | servers c sds =>
          obtain ⟨sd, rest, r, -, hr, rfl⟩ := Manager.onServers_some hto.2
          have ha' := (Manager.requesting_some hr).1
          rw [← Manager.action?_congr (Manager.buildServer_actions sd.serverId (Manager.endpointsOf sd))] at ha'
          exact Or.inr ⟨_, by rw [Manager.resolve_action? _ _ _ _ ha', if_pos rfl], rfl⟩
        | serversError | serversStop => cases hh
        | getStream | getStreamTo | drop => cases hto
      · exact Or.inr ⟨act', (ht.other a hab).trans ha, hc⟩
  | @result b x act hb =>
    by_cases hab : a = b
    · exact Or.inl ⟨x, by rw [hab]; exact List.mem_append_right _ (List.mem_singleton_self _)⟩
    · rcases ho with ⟨y, hy⟩ | ⟨act', ha, hc⟩
      · exact Or.inl ⟨y, List.mem_append_left _ hy⟩
      · exact Or.inr ⟨act', ((Manager.turn_endAction hb).other a hab).trans ha, hc⟩
  | drop => cases hh

/-- What is not open is over, and stays without an answer. -/
theorem open_of_step (h : Inv s) (hlt : a < s.mgr.actions.length) (hs : step s e = some t) (ho : Open t a) :
    Open s a := by
  by_contra hn
  simp only [Open, not_or, not_exists, not_and, Bool.not_eq_true] at hn
  have hov : Over s a := ⟨hlt, hn.2⟩
  obtain ⟨hov', hres⟩ := hov.step h hs
  rcases ho with ⟨x, hx⟩ | ⟨act, ha, hc⟩
  · exact hn.1 x (hres _ hx)
  · rw [hov'.2 act ha] at hc
    cases hc

/-- From every state that is reached, `Update`s and right answers of the cloud alone, four
    for each call at most, bring every call to its result that has not failed, been stopped
    or been answered before. -/
theorem answers_all (h : exec step (init known) es = some s) :
    ∃ es' t, exec step s es' = some t ∧ Meets step (fun s e => helps s e = true) s es' ∧
      es'.length ≤ 4 * s.calls.length ∧ t.calls = s.calls ∧
      ∀ a < s.calls.length, (∃ x, (a, some x) ∈ t.results) ↔ Open s a := by
  have hi := inv h
  have hr : Ranked step helps (fun t => Inv t ∧ t.calls = s.calls ∧ ∀ a < s.calls.length, Open t a ↔ Open s a)
      (·.mgr.pending) := by
    refine ⟨fun u e v ⟨hu, hcalls, hopen⟩ hh hv => ⟨step_inv hu hv, ?_, fun a ha => ?_⟩,
      fun u e v ⟨hu, _⟩ hh hv => step_lowers hu (helps_own hh) hv⟩
    · rw [step_calls hu hv, ← hcalls]
      cases e with
      | update | servers => exact List.append_nil _
      | getStream | getStreamTo | serversError | serversStop | drop => cases hh
    · rw [← hopen a ha]
      exact ⟨open_of_step hu (by rw [← hu.length, hcalls]; exact ha) hv, helps_open hu hh hv⟩
  obtain ⟨es', t, hx, hm, hlen, ⟨ht, hcalls, hopen⟩, hq⟩ := hr.settles ⟨hi, rfl, fun _ _ => Iff.rfl⟩
  have hpend := s.mgr.pending_le
  rw [← hi.length] at hpend
  refine ⟨es', t, hx, hm, Nat.le_trans hlen hpend, hcalls, fun a ha => ?_⟩
  refine ⟨fun hx => (hopen a ha).mp (Or.inl hx), fun ho => ?_⟩
  rcases (hopen a ha).mpr ho with hx | ⟨act, hact, hc⟩
  · exact hx
  · -- an action that can come to a result has a move that helps
    rcases ht.mgr.phases hact with hmv | ⟨r, hr⟩ | hst
    · have hn := hq (.update a) (by simpa [helps, own, hact] using hmv)
      simp [step, hact] at hn
    · have hn := hq (.servers a [⟨r.serverId, []⟩]) (decide_eq_true (Manager.answered_requesting hr))
      simp [step, Manager.onServers, hr] at hn
    · rw [(Manager.stopped_still hst).2] at hc
      cases hc

/-- Two clients wait for one id, one cloud request has failed: the other is answered. -/
theorem answers_all_two :
    ∃ s es' t, exec step (init [])
        [.getStream 5 true, .getStream 5 true, .update 0, .update 0, .serversError 0] = some s ∧
      exec step s es' = some t ∧ es'.length ≤ 8 ∧ (∃ x, (1, some x) ∈ t.results) ∧ ¬ ∃ x, (0, some x) ∈ t.results := by
  obtain ⟨es', t, hx, -, hlen, -, hres⟩ := answers_all (rfl : exec step (init [])
    [.getStream 5 true, .getStream 5 true, .update 0, .update 0, .serversError 0] = some _)
  refine ⟨_, es', t, rfl, hx, hlen, (hres 1 (by decide)).mpr (Or.inr ⟨_, rfl, rfl⟩), fun h0 => ?_⟩
  rcases (hres 0 (by decide)).mp h0 with ⟨x, hx⟩ | ⟨act, ha, hc⟩
  · cases hx
  · cases ha
    cases hc

end Callers

end AetherGateway.Streams
