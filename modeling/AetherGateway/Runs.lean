/-
  AetherGateway.Runs — runs of a machine given by a partial step function.

  `step s e = none` says that the machine has no `e` step in `s` (the event is not
  enabled there). A run is a list of events executed from left to right (`exec`).
  - `Always P s es`: `P` holds in every state the run passes, the first and the last
    included.
  - `Meets C s es`: every step of the run starts from a state that meets `C` with the
    step's event.
  - `Along Q s es`: every step of the run, from its state to the next, is as `Q` says.

  Proved:
  - `invariant` / `guarded_invariant`: what a step preserves (under its guard), a run
    preserves (when its steps meet the guard).
  - `always_of_meets`: so such a run has throughout what the invariant gives.
  - `always_exec`: what a run has throughout, its last state has.
  - `always_along_iff_meets`: when breaking the guard breaks `P` in the next state or `Q`
    along the step, a run has both throughout exactly when its steps meet the guard;
    `always_iff_meets` is the rule for `P` alone.
  - `along_of_meets`, `along_iff_meets`: the same for a property of the steps.
-/

import Mathlib.Data.List.Induction

namespace AetherGateway.Runs

variable {σ ε : Type*} (step : σ → ε → Option σ)

/-- The state after the events, none when one of them is not enabled. -/
def exec : σ → List ε → Option σ
  | s, [] => some s
  | s, e :: es => (step s e).bind (exec · es)

/-- `P` in every state of the run. -/
def Always (P : σ → Prop) : σ → List ε → Prop
  | s, [] => P s
  | s, e :: es => P s ∧ ∀ t, step s e = some t → Always P t es

/-- `C` at every step of the run. -/
def Meets (C : σ → ε → Prop) : σ → List ε → Prop
  | _, [] => True
  | s, e :: es => C s e ∧ ∀ t, step s e = some t → Meets C t es

/-- `Q` of every step of the run. -/
def Along (Q : σ → ε → σ → Prop) : σ → List ε → Prop
  | _, [] => True
  | s, e :: es => ∀ t, step s e = some t → Q s e t ∧ Along Q t es

variable {step} {s t : σ} {e : ε} {es : List ε}

instance decidableMeets {C : σ → ε → Prop} [∀ s e, Decidable (C s e)] :
    (es : List ε) → (s : σ) → Decidable (Meets step C s es)
  | [], _ => .isTrue trivial
  | e :: es, s =>
    match h : step s e with
    | none => decidable_of_iff (C s e) ⟨fun hc => ⟨hc, fun t ht => by cases h.symm.trans ht⟩, And.left⟩
    | some u =>
      have := decidableMeets (C := C) es u
      decidable_of_iff (C s e ∧ Meets step C u es)
        ⟨fun hc => ⟨hc.1, fun t ht => by cases h.symm.trans ht; exact hc.2⟩, fun hc => ⟨hc.1, hc.2 u h⟩⟩

/-! ## Executions -/

@[simp] theorem exec_nil : exec step s [] = some s := rfl

theorem exec_cons : exec step s (e :: es) = (step s e).bind (exec step · es) := rfl

theorem exec_cons_some : exec step s (e :: es) = some t ↔ ∃ u, step s e = some u ∧ exec step u es = some t := by
  rw [exec_cons, Option.bind_eq_some_iff]

theorem exec_append (es es' : List ε) (s : σ) :
    exec step s (es ++ es') = (exec step s es).bind (exec step · es') := by
  induction es generalizing s with
  | nil => rfl
  | cons e es ih =>
    rw [List.cons_append, exec_cons, exec_cons, Option.bind_assoc]
    congr 1
    exact funext ih

/-- A run with an event in it takes that event from some state of the run. -/
theorem exec_mem (he : e ∈ es) (h : exec step s es = some t) :
    ∃ es₁ es₂ u v, exec step s es₁ = some u ∧ step u e = some v ∧ exec step v es₂ = some t := by
  obtain ⟨es₁, es₂, rfl⟩ := List.append_of_mem he
  rw [exec_append, Option.bind_eq_some_iff] at h
  obtain ⟨u, hu, h⟩ := h
  obtain ⟨v, hv, h⟩ := exec_cons_some.mp h
  exact ⟨es₁, es₂, u, v, hu, hv, h⟩

/-! ## Invariants -/

/-- The guarded rule: under the guard a step preserves `I`, so a run whose steps meet
    the guard preserves `I`. -/
theorem guarded_invariant {I : σ → Prop} {C : σ → ε → Prop}
    (hstep : ∀ s e t, I s → C s e → step s e = some t → I t) (hi : I s) (hm : Meets step C s es)
    (h : exec step s es = some t) : I t := by
  induction es generalizing s with
  | nil => cases h; exact hi
  | cons e es ih =>
    obtain ⟨u, hu, h⟩ := exec_cons_some.mp h
    exact ih (hstep s e u hi hm.1 hu) (hm.2 u hu) h

theorem meets_of_all {C : σ → ε → Prop} (h : ∀ s, ∀ e ∈ es, C s e) : Meets step C s es := by
  induction es generalizing s with
  | nil => trivial
  | cons e es ih =>
    exact ⟨h s e List.mem_cons_self, fun t _ => ih fun s e' he' => h s e' (List.mem_cons_of_mem _ he')⟩

theorem Meets.and {C D : σ → ε → Prop} (hc : Meets step C s es) (hd : Meets step D s es) :
    Meets step (fun s e => C s e ∧ D s e) s es := by
  induction es generalizing s with
  | nil => trivial
  | cons e es ih => exact ⟨⟨hc.1, hd.1⟩, fun t ht => ih (hc.2 t ht) (hd.2 t ht)⟩

/-- A run meets the guard when its two parts do. -/
theorem meets_append {C : σ → ε → Prop} {es es' : List ε} (h : exec step s es = some t) :
    Meets step C s (es ++ es') ↔ Meets step C s es ∧ Meets step C t es' := by
  induction es generalizing s with
  | nil => cases h; exact (and_iff_right trivial).symm
  | cons e es ih =>
    obtain ⟨u, hu, h⟩ := exec_cons_some.mp h
    have next : (∀ t, step s e = some t → Meets step C t (es ++ es')) ↔ Meets step C u (es ++ es') :=
      ⟨fun hm => hm u hu, fun hm v hv => by cases hu.symm.trans hv; exact hm⟩
    have next' : (∀ t, step s e = some t → Meets step C t es) ↔ Meets step C u es :=
      ⟨fun hm => hm u hu, fun hm v hv => by cases hu.symm.trans hv; exact hm⟩
    show (C s e ∧ ∀ t, step s e = some t → Meets step C t (es ++ es')) ↔
      (C s e ∧ ∀ t, step s e = some t → Meets step C t es) ∧ Meets step C t es'
    rw [next, next', ih h, and_assoc]

theorem invariant {I : σ → Prop} (hstep : ∀ s e t, I s → step s e = some t → I t) (hi : I s)
    (h : exec step s es = some t) : I t :=
  guarded_invariant (C := fun _ _ => True) (fun s e t hi _ => hstep s e t hi) hi
    (meets_of_all fun _ _ _ => trivial) h

/-- The rule for a step that needs to know that its state was reached. -/
theorem reached_invariant {I : σ → Prop} {C : σ → ε → Prop} (hi : I s)
    (hstep : ∀ es u e v, exec step s es = some u → I u → C u e → step u e = some v → I v) (hm : Meets step C s es)
    (h : exec step s es = some t) : I t := by
  induction es using List.reverseRecOn generalizing t with
  | nil => cases h; exact hi
  | append_singleton es e ih =>
    rw [exec_append, Option.bind_eq_some_iff] at h
    obtain ⟨u, hu, h⟩ := h
    obtain ⟨v, hv, h⟩ := exec_cons_some.mp h
    cases h
    obtain ⟨hmes, hc, -⟩ := (meets_append hu).mp hm
    exact hstep es u e _ hu (ih hmes hu) hc hv

theorem always_head {P : σ → Prop} (h : Always step P s es) : P s := by
  cases es with
  | nil => exact h
  | cons => exact h.1

theorem always_exec {P : σ → Prop} (h : Always step P s es) (he : exec step s es = some t) : P t := by
  induction es generalizing s with
  | nil => cases he; exact h
  | cons e es ih =>
    obtain ⟨u, hu, he⟩ := exec_cons_some.mp he
    exact ih (h.2 u hu) he

theorem always_append {P : σ → Prop} {es es' : List ε} (h : exec step s es = some t) (hs : Always step P s es)
    (ht : Always step P t es') : Always step P s (es ++ es') := by
  induction es generalizing s with
  | nil => cases h; exact ht
  | cons e es ih =>
    obtain ⟨u, hu, h⟩ := exec_cons_some.mp h
    refine ⟨hs.1, fun v hv => ?_⟩
    cases hu.symm.trans hv
    exact ih h (hs.2 u hu)

/-- Under the guard every state of the run has what the invariant gives. -/
theorem always_of_meets {I P : σ → Prop} {C : σ → ε → Prop} (hIP : ∀ s, I s → P s)
    (hkeep : ∀ s e t, I s → C s e → step s e = some t → I t) (hi : I s) (hm : Meets step C s es) :
    Always step P s es := by
  induction es generalizing s with
  | nil => exact hIP s hi
  | cons e es ih => exact ⟨hIP s hi, fun t ht => ih (hkeep s e t hi hm.1 ht) (hm.2 t ht)⟩

theorem always_of_invariant {I P : σ → Prop} (hIP : ∀ s, I s → P s) (hstep : ∀ s e t, I s → step s e = some t → I t)
    (hi : I s) : Always step P s es :=
  always_of_meets (C := fun _ _ => True) hIP (fun s e t hi _ => hstep s e t hi) hi (meets_of_all fun _ _ _ => trivial)

/-- The rest of a run has what the run has. -/
theorem along_append {Q : σ → ε → σ → Prop} {es es' : List ε} (hs : Along step Q s (es ++ es'))
    (h : exec step s es = some t) : Along step Q t es' := by
  induction es generalizing s with
  | nil => cases h; exact hs
  | cons e es ih =>
    obtain ⟨u, hu, h⟩ := exec_cons_some.mp h
    exact ih (hs u hu).2 h

/-- Under the guard every step of the run has what the invariant gives. -/
theorem along_of_meets {I : σ → Prop} {C : σ → ε → Prop} {Q : σ → ε → σ → Prop}
    (hkeep : ∀ s e t, I s → C s e → step s e = some t → I t)
    (hQ : ∀ s e t, I s → C s e → step s e = some t → Q s e t) (hi : I s) (hm : Meets step C s es) :
    Along step Q s es := by
  induction es generalizing s with
  | nil => trivial
  | cons e es ih => exact fun t ht => ⟨hQ s e t hi hm.1 ht, ih (hkeep s e t hi hm.1 ht) (hm.2 t ht)⟩

/-- The guard that makes the difference: a run keeps `P` in its states and `Q` along its
    steps exactly when its steps meet `C`. -/
theorem always_along_iff_meets {I P : σ → Prop} {C : σ → ε → Prop} {Q : σ → ε → σ → Prop} (hIP : ∀ s, I s → P s)
    (hkeep : ∀ s e t, I s → C s e → step s e = some t → I t)
    (hQ : ∀ s e t, I s → C s e → step s e = some t → Q s e t)
    (hbreak : ∀ s e, I s → ¬ C s e → ∃ t, step s e = some t ∧ (P t → ¬ Q s e t)) (hi : I s) :
    Always step P s es ∧ Along step Q s es ↔ Meets step C s es := by
  refine ⟨fun h => ?_, fun hm => ⟨always_of_meets hIP hkeep hi hm, along_of_meets hkeep hQ hi hm⟩⟩
  induction es generalizing s with
  | nil => trivial
  | cons e es ih =>
    obtain ⟨ha, hl⟩ := h
    have hc : C s e := by
      by_contra hc
      obtain ⟨t, ht, hn⟩ := hbreak s e hi hc
      exact hn (always_head (ha.2 t ht)) (hl t ht).1
    exact ⟨hc, fun t ht => ih (hkeep s e t hi hc ht) ⟨ha.2 t ht, (hl t ht).2⟩⟩

theorem along_of_all {Q : σ → ε → σ → Prop} (h : ∀ s e t, Q s e t) : Along step Q s es := by
  induction es generalizing s with
  | nil => trivial
  | cons e es ih => exact fun t _ => ⟨h s e t, ih⟩

theorem always_iff_meets {I P : σ → Prop} {C : σ → ε → Prop} (hIP : ∀ s, I s → P s)
    (hkeep : ∀ s e t, I s → C s e → step s e = some t → I t)
    (hbreak : ∀ s e, I s → ¬ C s e → ∃ t, step s e = some t ∧ ¬ P t) (hi : I s) :
    Always step P s es ↔ Meets step C s es := by
  rw [← always_along_iff_meets (Q := fun _ _ _ => True) hIP hkeep (fun _ _ _ _ _ _ => trivial) ?_ hi,
    and_iff_left (along_of_all fun _ _ _ => trivial)]
  intro s e hi hc
  obtain ⟨t, ht, hp⟩ := hbreak s e hi hc
  exact ⟨t, ht, fun h => absurd h hp⟩

theorem along_iff_meets {I : σ → Prop} {C : σ → ε → Prop} {Q : σ → ε → σ → Prop}
    (hkeep : ∀ s e t, I s → step s e = some t → I t)
    (hQ : ∀ s e, I s → ((∀ t, step s e = some t → Q s e t) ↔ C s e)) (hi : I s) :
    Along step Q s es ↔ Meets step C s es := by
  refine ⟨fun ha => ?_, along_of_meets (fun s e t hi _ => hkeep s e t hi) (fun s e t hi hc => (hQ s e hi).mpr hc t) hi⟩
  induction es generalizing s with
  | nil => trivial
  | cons e es ih =>
    exact ⟨(hQ s e hi).mp fun t ht => (ha t ht).1, fun t ht => ih (hkeep s e t hi ht) (ha t ht).2⟩

end AetherGateway.Runs
