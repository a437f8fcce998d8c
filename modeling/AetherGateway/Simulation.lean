/-
  AetherGateway.Simulation — a machine seen as a run of another (see
  `AetherGateway.Runs`).

  `img s e` are the events of the other machine that the step `e` from `s` amounts to, on
  the image of the state under `f`; `image` are those of a whole run.
  - `Projects.run`: the image of a run is a run of the other machine.
  - `Projects.meets`: what the image of each step meets, the image of the run meets.
  - `Projects.shows`: a history that grows at each step by what the step's image shows is
    what the image of the run shows.

  Where the other machine is a relation between states (`Steps`), a step may amount to any of
  its moves that look the same (`Simulates`).
  - `Simulates.run`: a run looks as one of the other machine does, to a related state.
-/

import AetherGateway.Runs

namespace AetherGateway.Runs

variable {σ τ ε δ γ : Type*}

/-- The events that the run amounts to. -/
def image (step : σ → ε → Option σ) (img : σ → ε → List δ) : σ → List ε → List δ
  | _, [] => []
  | s, e :: es => (step s e).elim [] fun t => img s e ++ image step img t es

/-- Each step keeps `I` and is, on the image, a run of the other machine. -/
structure Projects (step : σ → ε → Option σ) (step' : τ → δ → Option τ) (f : σ → τ) (img : σ → ε → List δ)
    (I : σ → Prop) : Prop where
  keeps : ∀ s e t, I s → step s e = some t → I t
  runs : ∀ s e t, I s → step s e = some t → exec step' (f s) (img s e) = some (f t)

section
variable {step : σ → ε → Option σ} {step' : τ → δ → Option τ} {f : σ → τ} {img : σ → ε → List δ} {I : σ → Prop}
variable {s t : σ} {es : List ε}

theorem image_cons {e : ε} (h : step s e = some t) : image step img s (e :: es) = img s e ++ image step img t es := by
  rw [image, h, Option.elim_some]

theorem Projects.run (h : Projects step step' f img I) (hi : I s) (hx : exec step s es = some t) :
    exec step' (f s) (image step img s es) = some (f t) := by
  induction es generalizing s with
  | nil =>
    cases hx
    rfl
  | cons e es ih =>
    obtain ⟨u, hu, hx⟩ := exec_cons_some.mp hx
    rw [image_cons hu, exec_append, h.runs s e u hi hu]
    exact ih (h.keeps s e u hi hu) hx

/-- The history of a run, by its image. -/
theorem Projects.shows (h : Projects step step' f img I) {hist : σ → List γ} {shows : δ → List γ}
    (hstep : ∀ s e t, I s → step s e = some t → hist t = hist s ++ (img s e).flatMap shows) (hi : I s)
    (hx : exec step s es = some t) : hist t = hist s ++ (image step img s es).flatMap shows := by
  induction es generalizing s with
  | nil =>
    cases hx
    exact (List.append_nil _).symm
  | cons e es ih =>
    obtain ⟨u, hu, hx⟩ := exec_cons_some.mp hx
    rw [ih (h.keeps s e u hi hu) hx, hstep s e u hi hu, image_cons hu, List.flatMap_append, List.append_assoc]

theorem Meets.imp {C D : τ → δ → Prop} {step' : τ → δ → Option τ} {u : τ} {ds : List δ}
    (hm : Meets step' C u ds) (hCD : ∀ u d, C u d → D u d) : Meets step' D u ds := by
  induction ds generalizing u with
  | nil => trivial
  | cons d ds ih => exact ⟨hCD u d hm.1, fun v hv => ih (hm.2 v hv)⟩

/-- What each step's image meets, the image of the run meets. -/
theorem Projects.meets (h : Projects step step' f img I) {C : τ → δ → Prop} {G : σ → ε → Prop}
    (hC : ∀ s e t, I s → G s e → step s e = some t → Meets step' C (f s) (img s e)) (hi : I s)
    (hG : Meets step G s es) : Meets step' C (f s) (image step img s es) := by
  induction es generalizing s with
  | nil => trivial
  | cons e es ih =>
    cases hu : step s e with
    | none =>
      rw [image, hu]
      trivial
    | some u =>
      rw [image_cons hu]
      refine (meets_append (h.runs s e u hi hu)).mpr ⟨hC s e u hi hG.1 hu, ?_⟩
      exact ih (h.keeps s e u hi hu) (hG.2 u hu)

end

/-- Moves of a machine that is a relation, by label. -/
inductive Steps (Step : τ → δ → τ → Prop) : τ → List δ → τ → Prop where
  | nil (r : τ) : Steps Step r [] r
  | cons {r u v : τ} {d : δ} {ds : List δ} (h : Step r d u) (hs : Steps Step u ds v) : Steps Step r (d :: ds) v

theorem Steps.single {Step : τ → δ → τ → Prop} {r u : τ} {d : δ} (h : Step r d u) : Steps Step r [d] u := .cons h (.nil u)

theorem Steps.append {Step : τ → δ → τ → Prop} {r u v : τ} {ds ds' : List δ} (h : Steps Step r ds u)
    (h' : Steps Step u ds' v) : Steps Step r (ds ++ ds') v := by
  induction h with
  | nil => exact h'
  | cons hd _ ih => exact .cons hd (ih h')

/-- Related states stay related: a step amounts to moves that look the same. -/
def Simulates (step : σ → ε → Option σ) (Step : τ → δ → τ → Prop) (R : σ → τ → Prop) (visible : σ → ε → List γ)
    (observe : δ → List γ) : Prop :=
  ∀ s r e t, R s r → step s e = some t →
    ∃ ds u, Steps Step r ds u ∧ R t u ∧ ds.flatMap observe = visible s e

theorem Simulates.run {step : σ → ε → Option σ} {Step : τ → δ → τ → Prop} {R : σ → τ → Prop} {visible : σ → ε → List γ}
    {observe : δ → List γ} (h : Simulates step Step R visible observe) {s t : σ} {es : List ε} {r : τ} (hr : R s r)
    (hx : exec step s es = some t) :
    ∃ ds u, Steps Step r ds u ∧ R t u ∧ ds.flatMap observe = image step visible s es := by
  induction es generalizing s r with
  | nil =>
    cases hx
    exact ⟨[], r, .nil r, hr, rfl⟩
  | cons e es ih =>
    obtain ⟨v, hv, hx⟩ := exec_cons_some.mp hx
    obtain ⟨ds, u, hds, hu, hlook⟩ := h s r e v hr hv
    obtain ⟨ds', u', hds', hu', hlook'⟩ := ih hu hx
    refine ⟨ds ++ ds', u', hds.append hds', hu', ?_⟩
    rw [List.flatMap_append, hlook, hlook', image_cons hv]

end AetherGateway.Runs
