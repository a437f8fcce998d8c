/-
  AetherGateway.Progress — how far a machine gets by moves of its own (see
  `AetherGateway.Runs`).

  `own s e` says that `e`, where the machine has it, is a move of its own in `s`; the other
  events are the environment's. A rank is a number that every own move lowers (`Ranked`).
  - `Ranked.count`: a run has at most as many own moves as the rank its first state has and
    the environment's events add.
  - `Ranked.settles`: from every state own moves, at most as many as its rank, lead to a
    state without one (`Quiet`).
  - `sum_gain`: what the events add, when some of them add a constant.
  - `sum_set`: for a rank that is the sum of the ranks of the parts.
-/

import Mathlib.Algebra.GroupWithZero.Nat
import AetherGateway.Runs

namespace AetherGateway.Runs

variable {σ ε : Type*} (step : σ → ε → Option σ) (own : σ → ε → Bool)

def ownMoves : σ → List ε → Nat
  | _, [] => 0
  | s, e :: es => (step s e).elim 0 fun t => (if own s e then 1 else 0) + ownMoves t es

/-- The machine has no move of its own. -/
def Quiet (s : σ) : Prop := ∀ e, own s e = true → step s e = none

/-- Own moves keep `I` and lower the rank. -/
structure Ranked (I : σ → Prop) (rank : σ → Nat) : Prop where
  keeps : ∀ s e t, I s → own s e = true → step s e = some t → I t
  lowers : ∀ s e t, I s → own s e = true → step s e = some t → rank t < rank s

variable {step own} {I : σ → Prop} {rank : σ → Nat} {s t : σ} {es : List ε}

theorem Ranked.count (h : Ranked step own I rank) {gain : ε → Nat}
    (hkeep : ∀ s e t, I s → step s e = some t → I t)
    (hgain : ∀ s e t, I s → own s e = false → step s e = some t → rank t ≤ rank s + gain e) (hi : I s)
    (hx : exec step s es = some t) : ownMoves step own s es + rank t ≤ rank s + (es.map gain).sum := by
  induction es generalizing s with
  | nil =>
    cases hx
    simp [ownMoves]
  | cons e es ih =>
    obtain ⟨u, hu, hx⟩ := exec_cons_some.mp hx
    have hrest := ih (hkeep s e u hi hu) hx
    simp only [ownMoves, hu, Option.elim_some, List.map_cons, List.sum_cons]
    cases ho : own s e with
    | true =>
      have hlt := h.lowers s e u hi ho hu
      simp only [if_true]
      omega
    | false =>
      have hle := hgain s e u hi ho hu
      simp only [Bool.false_eq_true, if_false]
      omega

theorem Ranked.settles (h : Ranked step own I rank) (hi : I s) :
    ∃ es t, exec step s es = some t ∧ Meets step (fun s e => own s e = true) s es ∧ es.length ≤ rank s ∧ I t ∧
      Quiet step own t := by
  induction hr : rank s using Nat.strongRecOn generalizing s with
  | ind n ih =>
    by_cases hq : Quiet step own s
    · exact ⟨[], s, rfl, trivial, Nat.zero_le _, hi, hq⟩
    · simp only [Quiet, not_forall] at hq
      obtain ⟨e, ho, hne⟩ := hq
      obtain ⟨u, hu⟩ := Option.ne_none_iff_exists'.mp hne
      have hlt := h.lowers s e u hi ho hu
      rw [hr] at hlt
      obtain ⟨es, t, hx, hm, hlen, hit, hqt⟩ := ih (rank u) hlt (h.keeps s e u hi ho hu) rfl
      refine ⟨e :: es, t, exec_cons_some.mpr ⟨u, hu, hx⟩, ⟨ho, fun v hv => ?_⟩, ?_, hit, hqt⟩
      · cases hu.symm.trans hv
        exact hm
      · rw [List.length_cons]
        omega

/-- What a run's events add, when some of them add a constant. -/
theorem sum_gain {δ : Type*} (f : ε → Option δ) (c : Nat) (es : List ε) :
    (es.map fun e => c * (f e).toList.length).sum = c * (es.filterMap f).length := by
  induction es with
  | nil => rfl
  | cons e es ih =>
    rw [List.map_cons, List.sum_cons, ih, List.filterMap_cons]
    cases f e with
    | none => exact Nat.zero_add _
    | some d =>
      simp only [Option.toList_some, List.length_cons, List.length_nil, Nat.mul_add, Nat.mul_zero]
      omega

/-- A part of the rank gives way to what is left of it. -/
theorem sum_set {l : List Nat} {i v : Nat} (w : Nat) (h : l[i]? = some v) : (l.set i w).sum + v = l.sum + w := by
  induction l generalizing i with
  | nil => cases h
  | cons x l ih =>
    cases i with
    | zero =>
      cases h
      simp only [List.set_cons_zero, List.sum_cons]
      omega
    | succ i =>
      have := ih h
      simp only [List.set_cons_succ, List.sum_cons]
      omega

end AetherGateway.Runs
