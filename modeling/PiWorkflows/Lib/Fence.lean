import PiWorkflows.Lib.Assoc

/-!
# Work under fenced claims

A cell of work is open until it has an outcome. A party claims an open cell with
a token of its own, which makes the cell's next generation and takes the cell
from whoever held it. The holder may work on, or give the cell back with an
outcome or without one, and an open cell may be finished over the head of a holder. Nothing
asks the parties to notice any of this, so what protects a cell is that an
operation compares the token it was given with the holder's.

A cell is `Sound` for the last claim that was made on it if a cell with an
outcome has no holder and a holder is the last one that claimed. Both halves are
kept by every step, and they are all a client has to know: a cell with an
outcome keeps it for ever, and a token from before the last claim is no
holder's. `Moves` is one step of a whole family of cells, where one of them may
be claimed and new ones may appear. -/

namespace Fence

universe u v w

variable {κ : Type u} {τ : Type v} {ω : Type w}

structure Cell (τ : Type v) (ω : Type w) where
  outcome : Option ω
  generation : Nat
  holder : Option τ

/-- A cell that nobody has claimed. -/
def Cell.fresh : Cell τ ω := ⟨none, 0, none⟩

/-- What can happen to a cell, with the token of the claim if it is one. -/
inductive Step : Option τ → Cell τ ω → Cell τ ω → Prop
  | keep (c : Cell τ ω) : Step none c c
  | claim {c : Cell τ ω} (token : τ) (hopen : c.outcome = none) :
      Step (some token) c ⟨none, c.generation + 1, some token⟩
  | work {c : Cell τ ω} (hheld : c.holder ≠ none) : Step none c ⟨none, c.generation, c.holder⟩
  | release {c : Cell τ ω} (outcome : Option ω) (hheld : c.holder ≠ none) :
      Step none c ⟨outcome, c.generation, none⟩
  | finish {c : Cell τ ω} (outcome : ω) (generation : Nat) (hopen : c.outcome = none) :
      Step none c ⟨some outcome, generation, none⟩

/-- The cell, where `last` is the token of the last claim on it. -/
structure Sound (last : Option τ) (c : Cell τ ω) : Prop where
  released : c.outcome ≠ none → c.holder = none
  latest : ∀ token, c.holder = some token → last = some token

variable {last claimed : Option τ} {c c' : Cell τ ω}

theorem sound_fresh (last : Option τ) : Sound last (Cell.fresh : Cell τ ω) :=
  ⟨fun _ => rfl, fun _ h => by cases h⟩

/-- A holder works on an open cell. -/
theorem Sound.open_of_held (h : Sound last c) (hheld : c.holder ≠ none) : c.outcome = none := by
  by_contra hover
  exact hheld (h.released hover)

theorem Step.sound (hstep : Step claimed c c') (h : Sound last c) :
    Sound (claimed.or last) c' := by
  cases hstep with
  | keep => exact h
  | claim token hopen => exact ⟨fun hover => absurd rfl hover, fun _ htoken => htoken⟩
  | work hheld => exact ⟨fun hover => absurd rfl hover, h.latest⟩
  | release outcome hheld => exact ⟨fun _ => rfl, fun _ htoken => by cases htoken⟩
  | finish outcome generation hopen => exact ⟨fun _ => rfl, fun _ htoken => by cases htoken⟩

theorem Step.outcome_kept {o : ω} (hstep : Step claimed c c') (h : Sound last c)
    (hover : c.outcome = some o) : c'.outcome = some o := by
  have hclosed : c.outcome ≠ none := by rw [hover]; exact Option.some_ne_none o
  cases hstep with
  | keep => exact hover
  | claim token hopen => exact absurd hopen hclosed
  | work hheld => exact absurd (h.open_of_held hheld) hclosed
  | release outcome hheld => exact absurd (h.open_of_held hheld) hclosed
  | finish outcome generation hopen => exact absurd hopen hclosed

theorem Step.generation_claimed {token : τ} (hstep : Step (some token) c c') :
    c'.generation = c.generation + 1 := by
  cases hstep
  rfl

/-! ## Families of cells -/

section

variable [DecidableEq κ]

/-- The token of the claim, if it is one on the cell. -/
def claimOn (claim : Option (κ × τ)) (k : κ) : Option τ :=
  claim.bind fun e => if e.1 = k then some e.2 else none

@[simp] theorem claimOn_none (k : κ) : claimOn (none : Option (κ × τ)) k = none := rfl

@[simp] theorem claimOn_self (k : κ) (token : Option τ) :
    claimOn (token.map fun t => (k, t)) k = token := by
  cases token <;> simp [claimOn]

theorem claimOn_ne {k j : κ} (h : k ≠ j) (token : Option τ) :
    claimOn (token.map fun t => (k, t)) j = none := by
  cases token <;> simp [claimOn, h]

theorem lookup_claims (claim : Option (κ × τ)) (claims : List (κ × τ)) (k : κ) :
    (claim.toList ++ claims).lookup k = (claimOn claim k).or (claims.lookup k) := by
  cases claim with
  | none => rfl
  | some e =>
      obtain ⟨j, token⟩ := e
      show ((j, token) :: claims).lookup k = _
      rw [Assoc.lookup_cons_eq]
      by_cases h : k = j
      · simp [claimOn, h]
      · simp [claimOn, h, Ne.symm h]

/-- One step of all cells. -/
structure Moves (claim : Option (κ × τ)) (s s' : κ → Option (Cell τ ω)) : Prop where
  old : ∀ k c, s k = some c → ∃ c', s' k = some c' ∧ Step (claimOn claim k) c c'
  new : ∀ k c', s k = none → s' k = some c' → c' = Cell.fresh

variable {s s' : κ → Option (Cell τ ω)}

/-- A step that changes one cell. -/
theorem Moves.at {k : κ} {token : Option τ} (hc : s k = some c) (hstep : Step token c c')
    (hs' : ∀ j, s' j = if j = k then some c' else s j) :
    Moves (token.map fun t => (k, t)) s s' := by
  constructor
  · intro j d hd
    by_cases h : j = k
    · subst h
      obtain rfl : c = d := by rw [hc] at hd; exact Option.some.inj hd
      exact ⟨c', by rw [hs', if_pos rfl], by rw [claimOn_self]; exact hstep⟩
    · exact ⟨d, by rw [hs', if_neg h]; exact hd, by rw [claimOn_ne (Ne.symm h)]; exact .keep d⟩
  · intro j d hnone hd
    have h : j ≠ k := by
      rintro rfl
      rw [hc] at hnone
      cases hnone
    rw [hs', if_neg h, hnone] at hd
    cases hd

/-- A step that adds one cell. -/
theorem Moves.add {k : κ} (hfree : s k = none)
    (hs' : ∀ j, s' j = if j = k then some Cell.fresh else s j) :
    Moves (none : Option (κ × τ)) s s' := by
  constructor
  · intro j d hd
    have h : j ≠ k := by
      rintro rfl
      rw [hfree] at hd
      cases hd
    exact ⟨d, by rw [hs', if_neg h]; exact hd, .keep d⟩
  · intro j d hnone hd
    rw [hs'] at hd
    split at hd
    · exact (Option.some.inj hd).symm
    · rw [hnone] at hd
      cases hd

theorem Moves.same (h : ∀ k, s' k = s k) : Moves (none : Option (κ × τ)) s s' :=
  ⟨fun k c hc => ⟨c, by rw [h]; exact hc, .keep c⟩,
    fun k c hnone hc => by rw [h, hnone] at hc; cases hc⟩

/-- All cells, where `claims` are the claims made so far, the latest first. -/
def AllSound (claims : List (κ × τ)) (s : κ → Option (Cell τ ω)) : Prop :=
  ∀ k c, s k = some c → Sound (claims.lookup k) c

theorem Moves.sound {claim : Option (κ × τ)} {claims : List (κ × τ)} (hmoves : Moves claim s s')
    (h : AllSound claims s) : AllSound (claim.toList ++ claims) s' := by
  intro k c' hc'
  rw [lookup_claims]
  cases hs : s k with
  | none =>
      obtain rfl := hmoves.new k c' hs hc'
      exact sound_fresh _
  | some c =>
      obtain ⟨d, hd, hstep⟩ := hmoves.old k c hs
      obtain rfl : d = c' := by rw [hd] at hc'; exact Option.some.inj hc'
      exact hstep.sound (h k c hs)

end

end Fence
