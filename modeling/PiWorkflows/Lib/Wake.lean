import Mathlib.Order.Lattice

/-!
# Work that is woken while somebody is at it

A cell of work is due at a time, under a version that every wake-up raises, or
it is not due at all. Somebody takes it under the next generation and works on
what was due then. When they are done they settle it, and then only what they
saw may go: a cell whose version has moved on stays due. Or they put it back for
a time of their own choice, whatever was due.

A wake-up while the cell is held therefore outlives a settlement, and outlives
being put back only if the chosen time is no later. Both are proved from the two
predicates that every step preserves until the next taker comes: `Woken` while
the cell is held, `Waiting` from its release. -/

namespace Wake

universe u

variable {τ : Type u} [LinearOrder τ]

structure Cell (τ : Type u) where
  due : Option (τ × Nat)
  generation : Nat
  held : Bool

/-- What a wake-up makes of what was due. -/
def wakeDue (t : τ) : Option (τ × Nat) → Option (τ × Nat)
  | none => some (t, 1)
  | some (time, version) => some (min time t, version + 1)

/-- What can happen to a cell, with the time if it is a wake-up. -/
inductive Step : Option τ → Cell τ → Cell τ → Prop
  | keep (c : Cell τ) : Step none c c
  | wake (t : τ) (c : Cell τ) : Step (some t) c ⟨wakeDue t c.due, c.generation, c.held⟩
  | take (c : Cell τ) (hdue : c.due ≠ none) : Step none c ⟨c.due, c.generation + 1, true⟩
  | settle (seen : Nat) {c : Cell τ} (hheld : c.held = true) :
      Step none c ⟨c.due.filter fun due => due.2 ≠ seen, c.generation, false⟩
  | putBack (t : τ) {c : Cell τ} (hheld : c.held = true) :
      Step none c ⟨c.due.map fun due => (t, due.2 + 1), c.generation, false⟩

/-- The cell is due at the time or before. -/
def DueBy (t : τ) (c : Cell τ) : Prop :=
  ∃ time version, c.due = some (time, version) ∧ time ≤ t

/-- Who took the cell under the generation is no longer at it. -/
def Over (generation : Nat) (c : Cell τ) : Prop :=
  generation < c.generation ∨ c.generation = generation ∧ c.held = false

/-- The cell is held under the generation, by somebody who saw the version. -/
def Held (generation seen : Nat) (c : Cell τ) : Prop :=
  Over generation c ∨ c.generation = generation ∧ c.held = true ∧
    ∃ time version, c.due = some (time, version) ∧ seen ≤ version

/-- It was woken for the time since then. -/
def Woken (generation seen : Nat) (t : τ) (c : Cell τ) : Prop :=
  Over generation c ∨ c.generation = generation ∧ c.held = true ∧
    ∃ time version, c.due = some (time, version) ∧ seen < version ∧ time ≤ t

/-- It is due in time for its next taker, or that one has come. -/
def Waiting (generation : Nat) (t : τ) (c : Cell τ) : Prop :=
  generation < c.generation ∨ c.generation = generation ∧ c.held = false ∧ DueBy t c

variable {w : Option τ} {c c' : Cell τ} {generation seen : Nat} {t : τ}

theorem Step.over (hstep : Step w c c') (h : Over generation c) : Over generation c' := by
  cases hstep with
  | keep => exact h
  | wake => exact h
  | take =>
      rcases h with hlater | ⟨rfl, -⟩
      · exact .inl (Nat.lt_succ_of_lt hlater)
      · exact .inl (Nat.lt_succ_self _)
  | settle _ hheld | putBack _ hheld =>
      rcases h with hlater | ⟨-, hfree⟩
      · exact .inl hlater
      · rw [hheld] at hfree
        cases hfree

theorem Step.generation_le (hstep : Step w c c') : c.generation ≤ c'.generation := by
  cases hstep with
  | take => exact Nat.le_succ _
  | keep | wake | settle | putBack => exact Nat.le_refl _

theorem DueBy.wake (h : DueBy t c) (t' : τ) :
    DueBy t (⟨wakeDue t' c.due, c.generation, c.held⟩ : Cell τ) := by
  obtain ⟨time, version, hdue, hle⟩ := h
  exact ⟨min time t', version + 1, by rw [hdue, wakeDue], (min_le_left _ _).trans hle⟩

omit [LinearOrder τ] in
/-- A cell is due when somebody takes it. -/
theorem held_take (hdue : c.due = some (t, seen)) :
    Held (c.generation + 1) seen (⟨c.due, c.generation + 1, true⟩ : Cell τ) :=
  .inr ⟨rfl, rfl, t, seen, hdue, Nat.le_refl _⟩

theorem Step.held (hstep : Step w c c') (h : Held generation seen c) : Held generation seen c' := by
  rcases h with hover | ⟨rfl, hheld, time, version, hdue, hle⟩
  · exact .inl (hstep.over hover)
  · cases hstep with
    | keep => exact .inr ⟨rfl, hheld, time, version, hdue, hle⟩
    | wake t =>
        exact .inr ⟨rfl, hheld, min time t, version + 1, by rw [hdue, wakeDue], Nat.le_succ_of_le hle⟩
    | take => exact .inl (.inl (Nat.lt_succ_self _))
    | settle | putBack => exact .inl (.inr ⟨rfl, rfl⟩)

/-- A wake-up of a held cell. -/
theorem Step.woken_of_wake (hstep : Step (some t) c c') (h : Held generation seen c) :
    Woken generation seen t c' := by
  rcases h with hover | ⟨rfl, hheld, time, version, hdue, hle⟩
  · exact .inl (hstep.over hover)
  · cases hstep
    exact .inr ⟨rfl, hheld, min time t, version + 1, by rw [hdue, wakeDue], Nat.lt_succ_of_le hle,
      min_le_right _ _⟩

theorem Step.woken (hstep : Step w c c') (h : Woken generation seen t c) :
    Woken generation seen t c' := by
  rcases h with hover | ⟨rfl, hheld, time, version, hdue, hlt, hle⟩
  · exact .inl (hstep.over hover)
  · cases hstep with
    | keep => exact .inr ⟨rfl, hheld, time, version, hdue, hlt, hle⟩
    | wake t' =>
        exact .inr ⟨rfl, hheld, min time t', version + 1, by rw [hdue, wakeDue],
          Nat.lt_succ_of_lt hlt, (min_le_left _ _).trans hle⟩
    | take => exact .inl (.inl (Nat.lt_succ_self _))
    | settle | putBack => exact .inl (.inr ⟨rfl, rfl⟩)

theorem Woken.held (h : Woken generation seen t c) (hgeneration : c.generation = generation)
    (hheld : c.held = true) :
    ∃ time version, c.due = some (time, version) ∧ seen < version ∧ time ≤ t := by
  rcases h with (hlater | ⟨-, hfree⟩) | ⟨-, -, hdue⟩
  · omega
  · rw [hheld] at hfree
    cases hfree
  · exact hdue

theorem Step.waiting (hstep : Step w c c') (h : Waiting generation t c) :
    Waiting generation t c' := by
  rcases h with hlater | ⟨rfl, hfree, hdue⟩
  · cases hstep with
    | take => exact .inl (Nat.lt_succ_of_lt hlater)
    | keep | wake | settle | putBack => exact .inl hlater
  · cases hstep with
    | keep => exact .inr ⟨rfl, hfree, hdue⟩
    | wake t' => exact .inr ⟨rfl, hfree, hdue.wake t'⟩
    | take => exact .inl (Nat.lt_succ_self _)
    | settle _ hheld | putBack _ hheld =>
        rw [hheld] at hfree
        cases hfree

end Wake
