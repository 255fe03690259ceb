import Mathlib.Data.List.Basic

/-!
# A table listed in an order of its own

A map from keys to values that carry their key, and beside it a list of keys that
says in which order the values come out. A key may be listed more than once, and
then its value comes out more than once. A change of the map is a change of the
values that come out.
-/

universe u v

namespace Listing

variable {κ : Type u} {α : Type v} {key : α → κ} {look look' : κ → Option α}
  {order : List κ} {k : κ} {a : α}

/-- Every value carries the key it is under. -/
def Keyed (key : α → κ) (look : κ → Option α) : Prop :=
  ∀ k a, look k = some a → key a = k

/-- What comes out. -/
def listed (look : κ → Option α) (order : List κ) : List α :=
  order.filterMap look

theorem mem_listed : a ∈ listed look order ↔ ∃ k ∈ order, look k = some a :=
  List.mem_filterMap

theorem listed_congr (h : ∀ k ∈ order, look' k = look k) : listed look' order = listed look order :=
  List.filterMap_congr h

variable [DecidableEq κ]

/-- The value under a listed key is found by its key. -/
theorem find?_listed (hkeyed : Keyed key look) (hlisted : (look k).isSome = true → k ∈ order) :
    (listed look order).find? (fun a => decide (key a = k)) = look k := by
  cases hk : look k with
  | none =>
      rw [List.find?_eq_none]
      intro a ha heq
      obtain ⟨k', -, hk'⟩ := mem_listed.1 ha
      obtain rfl : k' = k := (hkeyed k' a hk').symm.trans (of_decide_eq_true heq)
      rw [hk] at hk'
      cases hk'
  | some a =>
      have hmem : a ∈ listed look order := mem_listed.2 ⟨k, hlisted (by rw [hk]; rfl), hk⟩
      cases hfound : (listed look order).find? fun a => decide (key a = k) with
      | none =>
          have hnone := List.find?_eq_none.1 hfound a hmem
          exact absurd (decide_eq_true (hkeyed k a hk)) hnone
      | some b =>
          obtain ⟨k', -, hk'⟩ := mem_listed.1 (List.mem_of_find?_eq_some hfound)
          have hb := List.find?_some hfound
          rw [decide_eq_true_eq] at hb
          obtain rfl : k' = k := (hkeyed k' b hk').symm.trans hb
          exact hk'.symm.trans hk

/-- A change of the value under a key. -/
theorem listed_update (hkeyed : Keyed key look) {g : α → α}
    (h : ∀ k', look' k' = if k' = k then (look k').map g else look k') :
    listed look' order = (listed look order).map fun a => if key a = k then g a else a := by
  rw [listed, listed, List.map_filterMap]
  refine List.filterMap_congr fun k' _ => ?_
  rw [h k']
  cases hk' : look k' with
  | none => split <;> rfl
  | some a =>
      have hkey := hkeyed k' a hk'
      by_cases heq : k' = k
      · rw [if_pos heq, Option.map_some, Option.map_some, if_pos (hkey.trans heq)]
      · rw [if_neg heq, Option.map_some, if_neg fun h => heq (hkey.symm.trans h)]

/-- A value put under a key and listed once more. -/
theorem listed_put (hkeyed : Keyed key look) (hthere : ∀ k' ∈ order, (look k').isSome = true)
    (h : ∀ k', look' k' = if k' = k then some a else look k') :
    listed look' (order ++ [k]) =
      ((listed look order).map fun b => if key b = k then a else b) ++ [a] := by
  have hlast : look' k = some a := (h k).trans (if_pos rfl)
  rw [listed, List.filterMap_append, List.filterMap_cons, hlast, List.filterMap_nil, listed,
    List.map_filterMap]
  refine congrArg (· ++ [a]) (List.filterMap_congr fun k' hk' => ?_)
  obtain ⟨b, hb⟩ := Option.isSome_iff_exists.1 (hthere k' hk')
  have hkey := hkeyed k' b hb
  rw [h k', hb]
  by_cases heq : k' = k
  · rw [if_pos heq, Option.map_some, if_pos (hkey.trans heq)]
  · rw [if_neg heq, Option.map_some, if_neg fun h => heq (hkey.symm.trans h)]

end Listing
