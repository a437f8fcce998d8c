/-
  AetherGateway.Lora.Stall — when the queue of the driver comes to a stop.

  - `stallFree_iff`: a run never stalls exactly when the queue starts no stage of its own
    that calls a public operation and opens no network.
  - `Stalled.forever`: a stalled driver stays so, whatever is called.
-/

import AetherGateway.Lora.Invariant

namespace AetherGateway.Lora

open AetherGateway.SerialQueue AetherGateway.Runs

variable {ae : Aether} {s t : St} {d : Driver}

/-- The queue is not empty, no AT request is outstanding and the head cannot make a step. -/
def Stalled (ae : Aether) (s : St) : Prop := ¬ Idle s ∧ outstanding s = none ∧ next (machine ae) s = none

/-- A stage that calls a public operation waits for a job behind its own; no code sets the
    flags of an open network action. -/
def Stage.blocks : Stage → Bool
  | .operation c => !c.refused
  | .openTcp _ _ _ => true
  | .openUdp _ _ _ => true
  | _ => false

def nextStage (s : St) : Option Stage :=
  match s.cur with
  | none => none
  | some c => if c.act = none then c.rest.head? else none

def Unblocked (s : St) : Ev → Prop
  | .run => ∀ x, nextStage s = some x → x.blocks = false
  | _ => True

structure OnModule (s : St) : Prop where
  named : Named s
  act : ∀ c, s.cur = some c → ∀ a, c.act = some a → ∃ r, a = .request r

theorem construct_onModule (i : LoraGatewayInit) : OnModule (construct i) := ⟨construct_named i, fun c h => by cases h⟩

theorem OnModule.not_stalled (h : OnModule s) : ¬ Stalled ae s := by
  intro hs
  obtain ⟨hidle, hout, hnext⟩ := hs
  rcases next_eq_none.mp hnext with hi | ⟨c, a, hc, ha, -⟩
  · exact hidle hi
  · obtain ⟨r, rfl⟩ := h.act c hc a ha
    simp only [outstanding, waiting, hc, Option.bind_some, ha] at hout
    cases hout

theorem Starts.unblocked {x : Stage} {d' : Driver} {jobs : List Job} {a : Act} (h : Starts d x (d', jobs, .wait a))
    (hx : x.blocks = false) : ∃ r, a = .request r := by
  cases h with
  | enterAtMode => exact ⟨_, rfl⟩
  | exitAtMode => exact ⟨_, rfl⟩
  | request => exact ⟨_, rfl⟩
  | poll => exact ⟨_, rfl⟩
  | operation hc => simp only [Stage.blocks, hc] at hx; cases hx
  | openTcp => cases hx
  | openUdp => cases hx

theorem nextStage_some {c : Cur Handler Stage Act} {x : Stage} {rest : List Stage} (hc : s.cur = some c)
    (ha : c.act = none) (hr : c.rest = x :: rest) : nextStage s = some x := by
  simp only [nextStage, hc, ha, if_true, hr, List.head?_cons]

theorem nextStage_cur {x : Stage} (hx : nextStage s = some x) :
    ∃ c rest, s.cur = some c ∧ c.act = none ∧ c.rest = x :: rest := by
  unfold nextStage at hx
  cases hc : s.cur with
  | none => rw [hc] at hx; cases hx
  | some c =>
    simp only [hc] at hx
    by_cases ha : c.act = none
    · rw [if_pos ha] at hx
      obtain ⟨rest, hr⟩ := List.head?_eq_some_iff.mp hx
      exact ⟨c, rest, rfl, ha, hr⟩
    · rw [if_neg ha] at hx; cases hx

theorem moves_onModule {e : Option Ended} (h : Moves (machine ae) s e t) (hs : OnModule s)
    (hx : ∀ x, nextStage s = some x → x.blocks = false) : OnModule t := by
  refine ⟨moves_named h hs.named, ?_⟩
  refine h.head (P := fun _ c => ∀ a, c.act = some a → ∃ r, a = .request r) (fun j _ k stages _ _ _ a ha => by cases ha)
    (fun c x rest d jobs r act hc ha hr hst hact a h => ?_) (fun c a _ _ _ a ha => by cases ha)
  cases hact a h
  exact (startStage_starts hst).unblocked (hx x (nextStage_some hc ha hr))

theorem step_onModule {ev : Ev} (h : step ae s ev = some t) (hs : OnModule s) (hu : Unblocked s ev) : OnModule t := by
  refine ⟨step_named h hs.named, ?_⟩
  cases step_cases h with
  | call c => exact hs.act
  | run h => exact (moves_onModule h hs hu).act
  | answer a hr h =>
    refine (moves_onModule h hs fun x hx => ?_).act
    obtain ⟨c, hc, ha⟩ := outstanding_some hr
    simp only [nextStage, hc, ha] at hx
    cases hx
  | pushed hp => exact hs.act

/-- An operation object just handed out has not been told anything. -/
theorem Named.untold (h : Named s) : operationEnd s.d s.d.operations = none := by
  have hf : s.d.reports.find? (·.1 == s.d.operations) = none := by
    rw [List.find?_eq_none]
    intro p hp he
    exact absurd (beq_iff_eq.mp he) (Nat.ne_of_lt (h.reports p hp))
  rw [operationEnd, hf]
  rfl

theorem stalled_of_act {c : Cur Handler Stage Act} {a : Act} (hc : s.cur = some c) (ha : c.act = some a)
    (hne : ∀ r, a ≠ .request r) (hr : ready s.d a = none) : Stalled ae s := by
  refine ⟨fun hi => ?_, ?_, next_eq_none.mpr (Or.inr ⟨c, a, hc, ha, hr⟩)⟩
  · rw [hi.1] at hc; cases hc
  · cases ho : outstanding s with
    | none => rfl
    | some r =>
      obtain ⟨c', hc', ha'⟩ := outstanding_some ho
      cases hc.symm.trans hc'
      exact absurd (Option.some.inj (ha.symm.trans ha')) (hne r)

theorem startStage_blocks {x : Stage} (hx : x.blocks = true) (hu : operationEnd d d.operations = none) :
    ∃ d' jobs a, startStage d x = (d', jobs, .wait a) ∧ (∀ r, a ≠ .request r) ∧ ready d' a = none := by
  cases x with
  | operation c =>
    have hc : c.refused = false := by simpa [Stage.blocks] using hx
    refine ⟨{ d with operations := d.operations + 1 }, [.operation d.operations c], .operation d.operations, ?_,
      fun r h => (by cases h), hu⟩
    simp only [startStage, call, hc, Bool.false_eq_true, if_false]
  | openTcp op host port => exact ⟨d, [], _, rfl, fun r h => (by cases h), rfl⟩
  | openUdp op host port => exact ⟨d, [], _, rfl, fun r h => (by cases h), rfl⟩
  | _ => cases hx

/-- Starting a stage that blocks stalls the driver. -/
theorem OnModule.stalls (h : OnModule s) {x : Stage} (hx : nextStage s = some x) (hb : x.blocks = true) :
    ∃ t, next (machine ae) s = some t ∧ Stalled ae t := by
  obtain ⟨c, rest, hc, ha, hr⟩ := nextStage_cur hx
  obtain ⟨d', jobs, a, hs, hne, hready⟩ := startStage_blocks hb h.named.untold
  exact ⟨_, next_waits hc ha hr hs, stalled_of_act rfl rfl hne hready⟩

/-- A run of the driver never stalls exactly when its queue starts no stage that blocks. -/
theorem stallFree_iff (ae : Aether) (i : LoraGatewayInit) (es : List Ev) :
    Always (step ae) (fun s => ¬ Stalled ae s) (construct i) es ↔ Meets (step ae) Unblocked (construct i) es := by
  refine always_iff_meets (fun s hs => hs.not_stalled) (fun s e t hs hu h => step_onModule h hs hu) ?_
    (construct_onModule i)
  intro s ev hs hu
  cases ev with
  | run =>
    simp only [Unblocked, not_forall] at hu
    obtain ⟨x, hx, hb⟩ := hu
    obtain ⟨t, ht, hst⟩ := hs.stalls hx (by simpa using hb)
    exact ⟨t, ht, not_not.mpr hst⟩
  | _ => exact absurd trivial hu

/-- With everything answered `Init` calls `SetPowerSaveParam`, whose stage is queued behind
    `Init` and is waited for. -/
theorem init_stalls :
    let es := [Ev.run, .run, .answer .expected, .run, .answer .expected, .run, .answer .expected, .run,
      .answer .expected, .run, .answer .expected, .run]
    ¬ Always (step ⟨true, fun flags => flags.toNat?.map UInt32.ofNat⟩)
      (fun s => ¬ Stalled ⟨true, fun flags => flags.toNat?.map UInt32.ofNat⟩ s) (construct .default) es := by
  intro es h
  exact always_exec h rfl ⟨fun hi => (by cases hi.1), rfl, rfl⟩

/-! ## A stall is for ever -/

theorem Stalled.waits (h : Stalled ae s) :
    ∃ c a, s.cur = some c ∧ c.act = some a ∧ (∀ r, a ≠ .request r) ∧ ready s.d a = none := by
  obtain ⟨hidle, hout, hnext⟩ := h
  rcases next_eq_none.mp hnext with hi | ⟨c, a, hc, ha, hr⟩
  · exact absurd hi hidle
  · refine ⟨c, a, hc, ha, fun r e => ?_, hr⟩
    simp only [outstanding, waiting, hc, Option.bind_some, ha, e] at hout
    cases hout

theorem ready_congr {d' : Driver} (h : d'.reports = d.reports) (a : Act) : ready d' a = ready d a := by
  cases a with
  | operation op => simp only [ready, operationEnd, h]
  | _ => rfl

/-- Neither a call nor the poll brings a stalled driver on; it has no other step. -/
theorem Stalled.step {ev : Ev} (hs : Stalled ae s) (h : step ae s ev = some t) : Stalled ae t := by
  obtain ⟨c, a, hc, ha, hne, hr⟩ := hs.waits
  obtain ⟨-, hout, hnext⟩ := hs
  cases ev with
  | run => cases hnext.symm.trans h
  | answer o =>
    obtain ⟨r, hr', -⟩ := Option.bind_eq_some_iff.mp h
    cases hout.symm.trans hr'
  | call c' =>
    cases h
    exact stalled_of_act hc ha hne ((ready_congr (call_frame s.d c').2.2.2.1 a).trans hr)
  | pollTask => cases step_cases h; exact stalled_of_act hc ha hne hr
  | xpoll handle flags => cases step_cases h; exact stalled_of_act hc ha hne hr

/-- Whatever is called then, no operation after it is ever run. -/
theorem Stalled.forever {es : List Ev} (hs : Stalled ae s) (h : exec (Lora.step ae) s es = some t) : Stalled ae t :=
  invariant (fun _ _ _ hs h => Stalled.step hs h) hs h

end AetherGateway.Lora
