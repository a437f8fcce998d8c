/-
  AetherGateway.SerialQueue — a serial queue of jobs, each a pipeline of stages.

  A job is opened when its turn comes: it gives a handler and the stages of its pipeline,
  or nothing to run. The stages start one after another; starting one reads and changes
  the data `D`, may push jobs, and gives nothing to wait for (`null`), something that is
  over already (`done`) or an action. A null stage is passed over or fails the pipeline
  (`nullPasses`), one and the same for every stage. The next stage starts when the action
  of the last one has a result; an error or a stop ends the pipeline, whose end the
  handler is told. An action that is `ready` ends by itself, any other when the
  environment ends it (`finishAct`).

  - `next`: the one step the queue can make by itself.
  - `Moves`, `next_moves`, `finishAct_moves`: what a step does, once.
  - `next_eq_none`: the queue has no step of its own only when it is idle or waits for an
    action that is not ready.
  - `Moves.opens`, `Moves.closes`, `Moves.starts`, `Moves.ends`: the step when the head is known.
  - `Moves.head`, `Moves.data`: the invariant rules for the pipeline at the head and for the data.
-/

import AetherGateway.Runs

namespace AetherGateway.SerialQueue

inductive Ended where
  | result
  | error
  | stop
  deriving DecidableEq, Repr

/-- What starting a stage gives. -/
inductive Started (ω : Type*) where
  | null
  | done
  | wait (act : ω)
  deriving DecidableEq, Repr

structure Machine (D J κ S ω : Type*) where
  nullPasses : Bool
  pipeline : D → J → Option (κ × List S)
  start : D → κ → S → D × List J × Started ω
  ready : D → ω → Option Ended
  ended : D → κ → ω → Ended → D
  closed : D → κ → Ended → D

/-- The pipeline at the head of the queue: the stages started and those to come. -/
structure Cur (κ S ω : Type*) where
  handler : κ
  ran : List S
  rest : List S
  act : Option ω
  deriving DecidableEq, Repr

structure St (D J κ S ω : Type*) where
  d : D
  queue : List J
  cur : Option (Cur κ S ω)

variable {D J κ S ω : Type*} (M : Machine D J κ S ω) (s : St D J κ S ω)

/-- The pipeline is over; the handler is told. -/
def close (c : Cur κ S ω) (o : Ended) : St D J κ S ω := { s with d := M.closed s.d c.handler o, cur := none }

def endStage (c : Cur κ S ω) : Ended → St D J κ S ω
  | .result => { s with cur := some { c with act := none } }
  | o => close M s c o

def startStage (c : Cur κ S ω) (x : S) (rest : List S) : St D J κ S ω :=
  let (d, jobs, r) := M.start s.d c.handler x
  let s' := { s with d := d, queue := s.queue ++ jobs }
  let c' := { c with ran := c.ran ++ [x], rest := rest }
  match r with
  | .null => endStage M s' c' (if M.nullPasses then .result else .error)
  | .done => endStage M s' c' .result
  | .wait a => { s' with cur := some { c' with act := some a } }

def openJob (j : J) (queue : List J) : St D J κ S ω :=
  match M.pipeline s.d j with
  | none => { s with queue := queue }
  | some (k, stages) => { s with queue := queue, cur := some ⟨k, [], stages, none⟩ }

def endAct (c : Cur κ S ω) (a : ω) (o : Ended) : St D J κ S ω :=
  endStage M { s with d := M.ended s.d c.handler a o } c o

def next : Option (St D J κ S ω) :=
  match s.cur with
  | none =>
    match s.queue with
    | [] => none
    | j :: queue => some (openJob M s j queue)
  | some c =>
    match c.act, c.rest with
    | some a, _ => (M.ready s.d a).map (endAct M s c a)
    | none, [] => some (close M s c .result)
    | none, x :: rest => some (startStage M s c x rest)

def waiting : Option ω := s.cur.bind (·.act)

def finishAct (o : Ended) : Option (St D J κ S ω) :=
  match s.cur with
  | none => none
  | some c => c.act.map fun a => endAct M s c a o

def push (jobs : List J) : St D J κ S ω := { s with queue := s.queue ++ jobs }

def Idle : Prop := s.cur = none ∧ s.queue = []

variable {M s} {t : St D J κ S ω} {c : Cur κ S ω}

/-! ## What a step does -/

/-- The steps of the queue by itself (`e = none`), and when the environment ends the
    action that the head waits for (`e = some o`). -/
inductive Moves (M : Machine D J κ S ω) (s : St D J κ S ω) : Option Ended → St D J κ S ω → Prop where
  | skip {j : J} {queue : List J} (hc : s.cur = none) (hq : s.queue = j :: queue) (hp : M.pipeline s.d j = none) :
      Moves M s none ⟨s.d, queue, none⟩
  | opened {j : J} {queue : List J} {k : κ} {stages : List S} (hc : s.cur = none) (hq : s.queue = j :: queue)
      (hp : M.pipeline s.d j = some (k, stages)) : Moves M s none ⟨s.d, queue, some ⟨k, [], stages, none⟩⟩
  | finished {c : Cur κ S ω} (hc : s.cur = some c) (ha : c.act = none) (hr : c.rest = []) :
      Moves M s none ⟨M.closed s.d c.handler .result, s.queue, none⟩
  | waits {c : Cur κ S ω} {x : S} {rest : List S} {d : D} {jobs : List J} {a : ω} (hc : s.cur = some c)
      (ha : c.act = none) (hr : c.rest = x :: rest) (hs : M.start s.d c.handler x = (d, jobs, .wait a)) :
      Moves M s none ⟨d, s.queue ++ jobs, some ⟨c.handler, c.ran ++ [x], rest, some a⟩⟩
  | passed {c : Cur κ S ω} {x : S} {rest : List S} {d : D} {jobs : List J} {r : Started ω} (hc : s.cur = some c)
      (ha : c.act = none) (hr : c.rest = x :: rest) (hs : M.start s.d c.handler x = (d, jobs, r))
      (hnull : r = .done ∨ r = .null ∧ M.nullPasses = true) :
      Moves M s none ⟨d, s.queue ++ jobs, some ⟨c.handler, c.ran ++ [x], rest, none⟩⟩
  | nullFailed {c : Cur κ S ω} {x : S} {rest : List S} {d : D} {jobs : List J} (hc : s.cur = some c)
      (ha : c.act = none) (hr : c.rest = x :: rest) (hs : M.start s.d c.handler x = (d, jobs, .null))
      (hnull : M.nullPasses = false) : Moves M s none ⟨M.closed d c.handler .error, s.queue ++ jobs, none⟩
  | actResult {c : Cur κ S ω} {a : ω} {e : Option Ended} (hc : s.cur = some c) (ha : c.act = some a)
      (he : e.or (M.ready s.d a) = some .result) :
      Moves M s e ⟨M.ended s.d c.handler a .result, s.queue, some { c with act := none }⟩
  | actFailed {c : Cur κ S ω} {a : ω} {e : Option Ended} {o : Ended} (hc : s.cur = some c) (ha : c.act = some a)
      (he : e.or (M.ready s.d a) = some o) (ho : o ≠ .result) :
      Moves M s e ⟨M.closed (M.ended s.d c.handler a o) c.handler o, s.queue, none⟩

theorem openJob_moves {j : J} {queue : List J} (hc : s.cur = none) (hq : s.queue = j :: queue) :
    Moves M s none (openJob M s j queue) := by
  unfold openJob
  cases hp : M.pipeline s.d j with
  | none =>
    have h := Moves.skip hc hq hp
    rw [← hc] at h
    exact h
  | some p => exact .opened hc hq hp

theorem startStage_moves {x : S} {rest : List S} (hc : s.cur = some c) (ha : c.act = none) (hr : c.rest = x :: rest) :
    Moves M s none (startStage M s c x rest) := by
  unfold startStage
  rcases hs : M.start s.d c.handler x with ⟨d, jobs, r⟩
  cases r with
  | wait a => exact .waits hc ha hr hs
  | done => exact .passed hc ha hr hs (Or.inl rfl)
  | null =>
    cases hn : M.nullPasses with
    | true => exact .passed hc ha hr hs (Or.inr ⟨rfl, hn⟩)
    | false =>
      show Moves M s none ⟨M.closed d c.handler .error, s.queue ++ jobs, none⟩
      exact .nullFailed hc ha hr hs hn

theorem endAct_moves {a : ω} {e : Option Ended} {o : Ended} (hc : s.cur = some c) (ha : c.act = some a)
    (he : e.or (M.ready s.d a) = some o) : Moves M s e (endAct M s c a o) := by
  cases o with
  | result => exact .actResult hc ha he
  | error => exact .actFailed hc ha he (by decide)
  | stop => exact .actFailed hc ha he (by decide)

theorem next_moves (h : next M s = some t) : Moves M s none t := by
  unfold next at h
  cases hc : s.cur with
  | none =>
    cases hq : s.queue with
    | nil => simp only [hc, hq] at h; cases h
    | cons j queue => simp only [hc, hq] at h; cases h; exact openJob_moves hc hq
  | some c =>
    cases ha : c.act with
    | some a =>
      simp only [hc, ha] at h
      obtain ⟨o, ho, rfl⟩ := Option.map_eq_some_iff.mp h
      exact endAct_moves hc ha ho
    | none =>
      cases hr : c.rest with
      | nil => simp only [hc, ha, hr] at h; cases h; exact .finished hc ha hr
      | cons x rest => simp only [hc, ha, hr] at h; cases h; exact startStage_moves hc ha hr

theorem finishAct_moves {o : Ended} (h : finishAct M s o = some t) : Moves M s (some o) t := by
  unfold finishAct at h
  cases hc : s.cur with
  | none => simp only [hc] at h; cases h
  | some c =>
    simp only [hc] at h
    obtain ⟨a, ha, rfl⟩ := Option.map_eq_some_iff.mp h
    exact endAct_moves hc ha rfl

/-- A queue that cannot make a step by itself is idle or waits for an action. -/
theorem next_eq_none :
    next M s = none ↔ Idle s ∨ ∃ c a, s.cur = some c ∧ c.act = some a ∧ M.ready s.d a = none := by
  unfold next Idle
  constructor
  · intro h
    cases hc : s.cur with
    | none =>
      cases hq : s.queue with
      | nil => exact Or.inl ⟨rfl, rfl⟩
      | cons j queue => simp only [hc, hq] at h; cases h
    | some c =>
      cases ha : c.act with
      | some a =>
        simp only [hc, ha, Option.map_eq_none_iff] at h
        exact Or.inr ⟨c, a, rfl, ha, h⟩
      | none => cases hr : c.rest <;> simp only [hc, ha, hr] at h <;> cases h
  · intro h
    rcases h with ⟨hc, hq⟩ | ⟨c, a, hc, ha, hr⟩
    · simp only [hc, hq]
    · simp only [hc, ha, hr, Option.map_none]

/-- The next stage starts and is waited for. -/
theorem next_waits {x : S} {rest : List S} {d : D} {jobs : List J} {a : ω} (hc : s.cur = some c) (ha : c.act = none)
    (hr : c.rest = x :: rest) (hs : M.start s.d c.handler x = (d, jobs, .wait a)) :
    next M s = some ⟨d, s.queue ++ jobs, some ⟨c.handler, c.ran ++ [x], rest, some a⟩⟩ := by
  simp only [next, hc, ha, hr, startStage, hs]

/-- The next stage gives a null action, which fails the pipeline. -/
theorem next_nullFails {x : S} {rest : List S} {d : D} {jobs : List J} (hc : s.cur = some c) (ha : c.act = none)
    (hr : c.rest = x :: rest) (hs : M.start s.d c.handler x = (d, jobs, .null)) (hnull : M.nullPasses = false) :
    next M s = some ⟨M.closed d c.handler .error, s.queue ++ jobs, none⟩ := by
  simp only [next, hc, ha, hr, startStage, hs, hnull]
  rfl

/-- The head's stages are all over. -/
theorem next_closes (hc : s.cur = some c) (ha : c.act = none) (hr : c.rest = []) :
    next M s = some ⟨M.closed s.d c.handler .result, s.queue, none⟩ := by
  simp only [next, hc, ha, hr, close]

/-- The head's action fails: its pipeline is over. -/
theorem finishAct_fails {a : ω} {o : Ended} (hc : s.cur = some c) (ha : c.act = some a) (ho : o ≠ .result) :
    finishAct M s o = some ⟨M.closed (M.ended s.d c.handler a o) c.handler o, s.queue, none⟩ := by
  simp only [finishAct, hc, ha, Option.map_some]
  cases o with
  | result => exact absurd rfl ho
  | error => rfl
  | stop => rfl

/-! ## Steps with the head known -/

section
variable {e : Option Ended}

theorem Moves.opens (hm : Moves M s e t) (hc : s.cur = none) :
    ∃ j queue, s.queue = j :: queue ∧ t = openJob M s j queue := by
  cases hm with
  | skip _ hq hp => exact ⟨_, _, hq, by rw [openJob, hp, hc]⟩
  | opened _ hq hp => exact ⟨_, _, hq, by rw [openJob, hp]⟩
  | finished hc' _ _ => cases hc.symm.trans hc'
  | waits hc' _ _ _ => cases hc.symm.trans hc'
  | passed hc' _ _ _ _ => cases hc.symm.trans hc'
  | nullFailed hc' _ _ _ _ => cases hc.symm.trans hc'
  | actResult hc' _ _ => cases hc.symm.trans hc'
  | actFailed hc' _ _ _ => cases hc.symm.trans hc'

theorem Moves.closes (hm : Moves M s e t) (hc : s.cur = some c) (ha : c.act = none) (hr : c.rest = []) :
    t = close M s c .result := by
  cases hm with
  | skip hc' _ _ => cases hc.symm.trans hc'
  | opened hc' _ _ => cases hc.symm.trans hc'
  | finished hc' _ _ => cases hc.symm.trans hc'; rfl
  | waits hc' _ hr' _ => cases hc.symm.trans hc'; cases hr.symm.trans hr'
  | passed hc' _ hr' _ _ => cases hc.symm.trans hc'; cases hr.symm.trans hr'
  | nullFailed hc' _ hr' _ _ => cases hc.symm.trans hc'; cases hr.symm.trans hr'
  | actResult hc' ha' _ => cases hc.symm.trans hc'; cases ha.symm.trans ha'
  | actFailed hc' ha' _ _ => cases hc.symm.trans hc'; cases ha.symm.trans ha'

theorem Moves.starts {x : S} {rest : List S} (hm : Moves M s e t) (hc : s.cur = some c) (ha : c.act = none)
    (hr : c.rest = x :: rest) : t = startStage M s c x rest := by
  cases hm with
  | skip hc' _ _ => cases hc.symm.trans hc'
  | opened hc' _ _ => cases hc.symm.trans hc'
  | finished hc' _ hr' => cases hc.symm.trans hc'; cases hr.symm.trans hr'
  | waits hc' _ hr' hs => cases hc.symm.trans hc'; cases hr.symm.trans hr'; simp only [startStage, hs]
  | passed hc' _ hr' hs hnull =>
    cases hc.symm.trans hc'
    cases hr.symm.trans hr'
    rcases hnull with rfl | ⟨rfl, hn⟩
    · simp only [startStage, hs, endStage]
    · simp only [startStage, hs, hn, if_true, endStage]
  | nullFailed hc' _ hr' hs hn =>
    cases hc.symm.trans hc'
    cases hr.symm.trans hr'
    simp only [startStage, hs, hn, Bool.false_eq_true, if_false, endStage, close]
  | actResult hc' ha' _ => cases hc.symm.trans hc'; cases ha.symm.trans ha'
  | actFailed hc' ha' _ _ => cases hc.symm.trans hc'; cases ha.symm.trans ha'

/-- The action of the head's stage has an end. -/
theorem Moves.ends {a : ω} (hm : Moves M s e t) (hc : s.cur = some c) (ha : c.act = some a) :
    ∃ o, e.or (M.ready s.d a) = some o := by
  cases hm with
  | skip hc' _ _ => cases hc.symm.trans hc'
  | opened hc' _ _ => cases hc.symm.trans hc'
  | finished hc' ha' _ => cases hc.symm.trans hc'; cases ha.symm.trans ha'
  | waits hc' ha' _ _ => cases hc.symm.trans hc'; cases ha.symm.trans ha'
  | passed hc' ha' _ _ _ => cases hc.symm.trans hc'; cases ha.symm.trans ha'
  | nullFailed hc' ha' _ _ _ => cases hc.symm.trans hc'; cases ha.symm.trans ha'
  | actResult hc' ha' he => cases hc.symm.trans hc'; cases ha.symm.trans ha'; exact ⟨_, he⟩
  | actFailed hc' ha' he _ => cases hc.symm.trans hc'; cases ha.symm.trans ha'; exact ⟨_, he⟩

end

/-! ## Invariants of the head and of the data -/

/-- What an opened pipeline has, and a started stage and a result keep, holds of the head
    after every step. -/
theorem Moves.head {P : D → Cur κ S ω → Prop} {e : Option Ended} (hm : Moves M s e t)
    (hopened : ∀ j queue k stages, s.cur = none → s.queue = j :: queue → M.pipeline s.d j = some (k, stages) →
      P s.d ⟨k, [], stages, none⟩)
    (hstarted : ∀ c x rest d jobs r act, s.cur = some c → c.act = none → c.rest = x :: rest →
      M.start s.d c.handler x = (d, jobs, r) → (∀ a, act = some a → r = .wait a) →
      P d ⟨c.handler, c.ran ++ [x], rest, act⟩)
    (hresult : ∀ c a, s.cur = some c → c.act = some a → e.or (M.ready s.d a) = some .result →
      P (M.ended s.d c.handler a .result) { c with act := none }) :
    ∀ c, t.cur = some c → P t.d c := by
  intro c ht
  cases hm with
  | skip hc hq hp => cases ht
  | opened hc hq hp =>
    cases ht
    exact hopened _ _ _ _ hc hq hp
  | finished hc ha hr => cases ht
  | waits hc ha hr hs =>
    cases ht
    exact hstarted _ _ _ _ _ _ _ hc ha hr hs fun a h => by cases h; rfl
  | passed hc ha hr hs hnull =>
    cases ht
    exact hstarted _ _ _ _ _ _ _ hc ha hr hs fun a h => by cases h
  | nullFailed hc ha hr hs hnull => cases ht
  | actResult hc ha he =>
    cases ht
    exact hresult _ _ hc ha he
  | actFailed hc ha he ho => cases ht

/-- What the start of a stage and the end of an action leave of the data, and the end of a
    pipeline keeps, holds of the data after every step. -/
theorem Moves.data {P : D → Prop} {e : Option Ended} (hm : Moves M s e t) (hs : P s.d)
    (hstarted : ∀ c x rest d jobs r, s.cur = some c → c.act = none → c.rest = x :: rest →
      M.start s.d c.handler x = (d, jobs, r) → P d)
    (hended : ∀ c a o, s.cur = some c → c.act = some a → P (M.ended s.d c.handler a o))
    (hclosed : ∀ c d o, s.cur = some c → P d → P (M.closed d c.handler o)) : P t.d := by
  cases hm with
  | skip _ _ _ => exact hs
  | opened _ _ _ => exact hs
  | finished hc _ _ => exact hclosed _ _ _ hc hs
  | waits hc ha hr hst => exact hstarted _ _ _ _ _ _ hc ha hr hst
  | passed hc ha hr hst _ => exact hstarted _ _ _ _ _ _ hc ha hr hst
  | nullFailed hc ha hr hst _ => exact hclosed _ _ _ hc (hstarted _ _ _ _ _ _ hc ha hr hst)
  | actResult hc ha _ => exact hended _ _ _ hc ha
  | actFailed hc ha _ _ => exact hclosed _ _ _ hc (hended _ _ _ hc ha)

end AetherGateway.SerialQueue
