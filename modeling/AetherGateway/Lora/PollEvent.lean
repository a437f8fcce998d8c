/-
  AetherGateway.Lora.PollEvent — which connection a "#XPOLL: " response has the driver read
  (see `AetherGateway.Lora.Driver`).

  `PollEvent` tests the flags with `|` where `kPollIn` asks for `&`, and looks the handle up
  after a cast to 8 bits.
  - `pollEvent_eq`: so it reads whatever connection the low 8 bits of the handle name.
  - `pollsExactly_iff`: when that is the readable connection, and nothing otherwise.
  - `spurious_reads`: flags without `kPollIn`; a handle of another connection.
-/

import AetherGateway.Lora.Driver

namespace AetherGateway.Lora

open AetherGateway.SerialQueue

variable {ae : Aether} {s : St} {handle : Int32} {flags : String}

/-- The flags say that `c` can be read, and the handle is `c`. -/
def Readable (ae : Aether) (s : St) (handle : Int32) (flags : String) (c : Int8) : Prop :=
  (∃ v, ae.fromChars flags = some v ∧ v &&& kPollIn ≠ 0) ∧ c ∈ s.d.connections ∧ c.toInt = handle.toInt

/-- The readable connection is read, and with none the queue is left alone. -/
def PollsExactly (ae : Aether) (s : St) (handle : Int32) (flags : String) : Prop :=
  (∀ c, Readable ae s handle flags c → pollEvent ae s handle flags = push s [.readPacket c]) ∧
    ((∀ c, ¬ Readable ae s handle flags c) → pollEvent ae s handle flags = s)

/-! ## Integers -/

theorem or_kPollIn (v : UInt32) : v ||| kPollIn ≠ 0 := by
  intro h
  exact absurd (UInt32.or_eq_zero_iff.mp h).2 (by decide)

/-- A handle keeps its value in 8 bits exactly when it is in their range. -/
theorem toInt8_toInt (handle : Int32) : handle.toInt8.toInt = handle.toInt ↔ -128 ≤ handle.toInt ∧ handle.toInt < 128 := by
  rw [Int32.toInt_toInt8, Int.bmod_def]
  omega

theorem toInt8_eq {c : Int8} (h : c.toInt = handle.toInt) : handle.toInt8 = c := by
  have hrange : handle.toInt8.toInt = handle.toInt := by
    rw [toInt8_toInt, ← h]
    exact ⟨c.le_toInt, c.toInt_lt⟩
  exact Int8.toInt_inj.mp (hrange.trans h.symm)

/-! ## The poll event -/

/-- Any number reads the connection of the handle's low 8 bits. -/
theorem pollEvent_eq : pollEvent ae s handle flags =
    if (ae.fromChars flags).isSome ∧ handle.toInt8 ∈ s.d.connections then push s [.readPacket handle.toInt8] else s := by
  unfold pollEvent
  cases hf : ae.fromChars flags with
  | none => simp
  | some v =>
    cases hc : s.d.connections.find? (· == handle.toInt8) with
    | none =>
      have hn : handle.toInt8 ∉ s.d.connections := fun hm => List.find?_eq_none.mp hc _ hm (beq_self_eq_true _)
      simp [hn]
    | some c =>
      have hm := List.mem_of_find?_eq_some hc
      have he : c == handle.toInt8 := List.find?_some (p := (· == handle.toInt8)) hc
      rw [beq_iff_eq] at he
      subst he
      exact (if_pos (or_kPollIn v)).trans (if_pos ⟨rfl, hm⟩).symm

theorem push_ne (s : St) (j : Job) : push s [j] ≠ s := by
  intro h
  have hl := congrArg (fun s => s.queue.length) h
  simp [push] at hl

/-- The event is right exactly when the flags give no number, the handle's low 8 bits name
    no connection, or `kPollIn` is set and the handle fits them. -/
theorem pollsExactly_iff (ae : Aether) (s : St) (handle : Int32) (flags : String) :
    PollsExactly ae s handle flags ↔ ae.fromChars flags = none ∨ handle.toInt8 ∉ s.d.connections ∨
      (∃ v, ae.fromChars flags = some v ∧ v &&& kPollIn ≠ 0) ∧ -128 ≤ handle.toInt ∧ handle.toInt < 128 := by
  unfold PollsExactly
  rw [pollEvent_eq]
  constructor
  · intro ⟨_, hnone⟩
    by_cases hread : (ae.fromChars flags).isSome ∧ handle.toInt8 ∈ s.d.connections
    · rw [if_pos hread] at hnone
      -- the queue is not left alone, so some connection is readable
      obtain ⟨c, hset, _, hc⟩ : ∃ c, Readable ae s handle flags c := by
        by_contra hno
        exact push_ne s _ (hnone (not_exists.mp hno))
      refine Or.inr (Or.inr ⟨hset, (toInt8_toInt handle).mp ?_⟩)
      rw [toInt8_eq hc]
      exact hc
    · rcases not_and_or.mp hread with h | h
      · exact Or.inl (Option.not_isSome_iff_eq_none.mp h)
      · exact Or.inr (Or.inl h)
  · intro h
    constructor
    · intro c ⟨⟨v, hv, _⟩, hc, he⟩
      rw [toInt8_eq he, if_pos ⟨by rw [hv]; rfl, hc⟩]
    · intro hno
      rcases h with h | h | ⟨hset, hrange⟩
      · rw [if_neg fun hread => by rw [h] at hread; cases hread.1]
      · rw [if_neg fun hread => h hread.2]
      · exact if_neg fun hread => hno _ ⟨hset, hread.2, (toInt8_toInt handle).mpr hrange⟩

/-- With connection 5, flags 4 have it read for handle 5, and flags 1 for handle 261. -/
theorem spurious_reads :
    let ae : Aether := ⟨true, fun flags => if flags = "4" then some 4 else if flags = "1" then some 1 else none⟩
    let s : St := ⟨{ (construct .default).d with connections := [5] }, [], none⟩
    ¬ PollsExactly ae s 5 "4" ∧ ¬ PollsExactly ae s 261 "1" := by
  intro ae s
  have hread4 : pollEvent ae s 5 "4" = push s [.readPacket 5] := rfl
  have hread1 : pollEvent ae s 261 "1" = push s [.readPacket 5] := rfl
  constructor
  · intro h
    have hnone : ∀ c, ¬ Readable ae s 5 "4" c := by
      intro c ⟨⟨v, hv, hset⟩, _⟩
      cases hv
      exact hset rfl
    exact push_ne s _ (hread4.symm.trans (h.2 hnone))
  · intro h
    have hnone : ∀ c, ¬ Readable ae s 261 "1" c := by
      intro c ⟨_, hc, he⟩
      rw [List.mem_singleton.mp hc] at he
      exact absurd he (by decide)
    exact push_ne s _ (hread1.symm.trans (h.2 hnone))

end AetherGateway.Lora
