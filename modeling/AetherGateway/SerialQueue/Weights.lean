/-
  AetherGateway.SerialQueue.Weights — when a serial queue comes to an end.

  A job weighs more than the stages of its pipeline, a stage more than the jobs it pushes,
  whatever the data (`Weights`).
  - `Moves.lowers`: then every step lowers the load of the queue, those of the environment
    included.
-/

import Mathlib.Algebra.GroupWithZero.Nat
import AetherGateway.SerialQueue

namespace AetherGateway.SerialQueue

variable {D J κ S ω : Type*} {M : Machine D J κ S ω} {job : J → Nat} {stage : S → Nat}

/-- A stage is started and its action ends; a pipeline is opened and closed. -/
structure Weights (M : Machine D J κ S ω) (job : J → Nat) (stage : S → Nat) : Prop where
  opens : ∀ d j k stages, M.pipeline d j = some (k, stages) → (stages.map stage).sum + 2 ≤ job j
  skips : ∀ d j, M.pipeline d j = none → 0 < job j
  starts : ∀ d k x d' jobs r, M.start d k x = (d', jobs, r) → (jobs.map job).sum + 2 ≤ stage x

def Cur.load (stage : S → Nat) (c : Cur κ S ω) : Nat :=
  (c.rest.map stage).sum + c.act.elim 0 (fun _ => 1) + 1

def load (job : J → Nat) (stage : S → Nat) (s : St D J κ S ω) : Nat :=
  (s.queue.map job).sum + s.cur.elim 0 (Cur.load stage)

theorem Moves.lowers {s t : St D J κ S ω} {e : Option Ended} (w : Weights M job stage) (hm : Moves M s e t) :
    load job stage t < load job stage s := by
  cases hm with
  | skip hc hq hp =>
    have := w.skips _ _ hp
    simp only [load, hc, hq, Option.elim_none, List.map_cons, List.sum_cons]
    omega
  | opened hc hq hp =>
    have := w.opens _ _ _ _ hp
    simp only [load, hc, hq, Cur.load, Option.elim_none, Option.elim_some, List.map_cons, List.sum_cons]
    omega
  | finished hc ha hr => simp [load, hc, Cur.load]
  | waits hc ha hr hs =>
    have := w.starts _ _ _ _ _ _ hs
    simp only [load, hc, ha, hr, Cur.load, Option.elim_none, Option.elim_some, List.map_append, List.sum_append,
      List.map_cons, List.sum_cons]
    omega
  | passed hc ha hr hs _ =>
    have := w.starts _ _ _ _ _ _ hs
    simp only [load, hc, ha, hr, Cur.load, Option.elim_none, Option.elim_some, List.map_append, List.sum_append,
      List.map_cons, List.sum_cons]
    omega
  | nullFailed hc ha hr hs _ =>
    have := w.starts _ _ _ _ _ _ hs
    simp only [load, hc, ha, hr, Cur.load, Option.elim_none, Option.elim_some, List.map_append, List.sum_append,
      List.map_cons, List.sum_cons]
    omega
  | actResult hc ha _ => simp [load, hc, ha, Cur.load]
  | actFailed hc ha _ _ => simp [load, hc, Cur.load]

theorem load_push (s : St D J κ S ω) (jobs : List J) :
    load job stage (push s jobs) = load job stage s + (jobs.map job).sum := by
  simp only [load, push, List.map_append, List.sum_append]
  omega

end AetherGateway.SerialQueue
