/-
  AetherGateway.Codec — codes that say where they end.

  A `Codec` puts a value in front of any other bytes and gets it back with these left
  over (`get_put`), so codes are put one behind the other: pairs, lists, sums with a tag.
-/

import Mathlib.Data.List.Basic

namespace AetherGateway

structure Codec (α : Type*) where
  put : α → List UInt8
  get : List UInt8 → Option (α × List UInt8)
  get_put : ∀ a rest, get (put a ++ rest) = some (a, rest)

namespace Codec

variable {α β : Type*}

def byte : Codec UInt8 where
  put b := [b]
  get
    | [] => none
    | b :: rest => some (b, rest)
  get_put _ _ := rfl

/-- Ones and a zero. -/
def getNat : List UInt8 → Option (Nat × List UInt8)
  | [] => none
  | b :: rest => if b = 0 then some (0, rest) else (getNat rest).map fun p => (p.1 + 1, p.2)

theorem getNat_put (n : Nat) (rest : List UInt8) : getNat (List.replicate n 1 ++ [0] ++ rest) = some (n, rest) := by
  induction n with
  | zero => rfl
  | succ n ih =>
    rw [List.replicate_succ, List.cons_append, List.cons_append, getNat, if_neg (by decide), ih]
    rfl

def nat : Codec Nat := ⟨fun n => List.replicate n 1 ++ [0], getNat, getNat_put⟩

def map (c : Codec α) (f : β → α) (g : α → β) (h : ∀ b, g (f b) = b) : Codec β where
  put b := c.put (f b)
  get l := (c.get l).map fun p => (g p.1, p.2)
  get_put b rest := by rw [c.get_put, Option.map_some, h]

def prod (c : Codec α) (c' : Codec β) : Codec (α × β) where
  put p := c.put p.1 ++ c'.put p.2
  get l := (c.get l).bind fun p => (c'.get p.2).map fun q => ((p.1, q.1), q.2)
  get_put p rest := by rw [List.append_assoc, c.get_put, Option.bind_some, c'.get_put, Option.map_some]

def getMany (c : Codec α) : Nat → List UInt8 → Option (List α × List UInt8)
  | 0, l => some ([], l)
  | n + 1, l => (c.get l).bind fun p => (c.getMany n p.2).map fun q => (p.1 :: q.1, q.2)

theorem getMany_put (c : Codec α) (as : List α) (rest : List UInt8) :
    c.getMany as.length (as.flatMap c.put ++ rest) = some (as, rest) := by
  induction as with
  | nil => rfl
  | cons a as ih =>
    rw [List.flatMap_cons, List.append_assoc, List.length_cons, getMany, c.get_put, Option.bind_some, ih]
    rfl

def list (c : Codec α) : Codec (List α) where
  put as := nat.put as.length ++ as.flatMap c.put
  get l := (nat.get l).bind fun p => c.getMany p.1 p.2
  get_put as rest := by rw [List.append_assoc, nat.get_put, Option.bind_some, getMany_put]

/-- The tag says which of the two. -/
def sum (tag tag' : UInt8) (h : tag' ≠ tag) (c : Codec α) (c' : Codec β) : Codec (α ⊕ β) where
  put
    | .inl a => tag :: c.put a
    | .inr b => tag' :: c'.put b
  get
    | [] => none
    | t :: rest =>
      if t = tag then (c.get rest).map fun p => (.inl p.1, p.2)
      else if t = tag' then (c'.get rest).map fun p => (.inr p.1, p.2)
      else none
  get_put x rest := by
    cases x with
    | inl a => simp only [List.cons_append, if_true, c.get_put, Option.map_some]
    | inr b => simp only [List.cons_append, if_neg h, if_true, c'.get_put, Option.map_some]

def getAll (c : Codec α) (l : List UInt8) : List α := ((c.get l).map Prod.fst).toList

theorem getAll_put (c : Codec α) (a : α) : c.getAll (c.put a) = [a] := by
  have h := c.get_put a []
  rw [List.append_nil] at h
  rw [getAll, h]
  rfl

end Codec

end AetherGateway
