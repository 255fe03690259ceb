import Mathlib.Data.List.Basic

/-!
# Replacing a pattern in a list

Every place where the pattern stands is replaced, from the left on, and no place
overlaps the one before it.
-/

namespace Replace

variable {α : Type*} [DecidableEq α]

/-- The replacement, with the elements still to be passed over that belong to the
pattern found last. -/
def replaceFrom (pattern replacement : List α) : Nat → List α → List α
  | _, [] => []
  | skip + 1, _ :: rest => replaceFrom pattern replacement skip rest
  | 0, x :: rest =>
      if pattern.isPrefixOf (x :: rest) then
        replacement ++ replaceFrom pattern replacement (pattern.length - 1) rest
      else x :: replaceFrom pattern replacement 0 rest

/-- An empty pattern stands before every element and at the end. -/
def replaceAll (pattern replacement text : List α) : List α :=
  if pattern = [] then replacement ++ text.flatMap fun x => x :: replacement
  else replaceFrom pattern replacement 0 text

end Replace
