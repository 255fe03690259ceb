import Mathlib.Data.Set.Insert

/-!
# A latch under changing permits

A cell is open until somebody shuts it, and nobody can open it again. Whoever
wants to work on it needs a permit, of which one at a time is good: the cell's
generation. A party that comes while the cell is open may stay for long, and
permits expire in the meantime; but a party leaves with its first change of the
cell, and makes one only if its permit is good then.

`Sound` is what this is about: with the cell shut, no party that is still there has
a good permit, or will have one again. So a shut cell stays shut (`Step.shut`). -/

namespace Latch

structure Cell where
  generation : ℕ
  shut : Prop
  parties : Set ℕ

/-- What can happen to a cell: permits expire and parties leave, or one enters, or
changes the cell and leaves. A party is known by its permit. -/
inductive Step : Cell → Cell → Prop
  | wait {c : Cell} (generation : ℕ) (parties : Set ℕ) (hle : c.generation ≤ generation)
      (hsub : parties ⊆ c.parties) : Step c ⟨generation, c.shut, parties⟩
  | enter {c : Cell} (hopen : ¬ c.shut) :
      Step c ⟨c.generation, c.shut, insert c.generation c.parties⟩
  | change {c : Cell} (shut : Prop) (hparty : c.generation ∈ c.parties) :
      Step c ⟨c.generation, shut, c.parties \ {c.generation}⟩

structure Sound (c : Cell) : Prop where
  permits : ∀ party ∈ c.parties, party ≤ c.generation
  stale : c.shut → ∀ party ∈ c.parties, party < c.generation

variable {c c' : Cell}

/-- Nobody with a good permit is at a shut cell. -/
theorem Sound.not_shut (h : Sound c) (hparty : c.generation ∈ c.parties) : ¬ c.shut :=
  fun hshut => Nat.lt_irrefl _ (h.stale hshut _ hparty)

theorem Step.sound (hstep : Step c c') (h : Sound c) : Sound c' := by
  cases hstep with
  | wait generation parties hle hsub =>
      exact ⟨fun party hparty => (h.permits party (hsub hparty)).trans hle,
        fun hshut party hparty => (h.stale hshut party (hsub hparty)).trans_le hle⟩
  | enter hopen =>
      refine ⟨fun party hparty => ?_, fun hshut => absurd hshut hopen⟩
      rcases Set.mem_insert_iff.1 hparty with rfl | hparty
      · exact Nat.le_refl _
      · exact h.permits party hparty
  | change shut hparty =>
      refine ⟨fun party hleft => h.permits party hleft.1, fun _ party hleft => ?_⟩
      exact Nat.lt_of_le_of_ne (h.permits party hleft.1) hleft.2

theorem Step.shut (hstep : Step c c') (h : Sound c) (hshut : c.shut) : c'.shut := by
  cases hstep with
  | wait => exact hshut
  | enter hopen => exact absurd hshut hopen
  | change _ hparty => exact absurd hshut (h.not_shut hparty)

end Latch
