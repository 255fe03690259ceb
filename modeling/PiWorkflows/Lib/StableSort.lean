import Mathlib.Data.List.Sort

/-!
# Stable sorting by a preorder

A comparison that may call different items equal leaves a sort some freedom, and
a stable sort spends it on the order of the input. So whether two arrangements of
the same items sort alike is a question about ties alone: they do exactly if any
two tied items stand in the same order in both (`insertionSort_eq_iff`).

That one item stands before another is said by `[a, b] <+ l`, as in the library.
-/

namespace StableSort

open List

universe u

variable {α : Type u}

theorem before_asymm {a b : α} {l : List α} (hnodup : l.Nodup) (h : [a, b] <+ l)
    (h' : [b, a] <+ l) : False := by
  induction l with
  | nil => cases h
  | cons x rest ih =>
      rw [List.nodup_cons] at hnodup
      cases h with
      | cons _ h =>
          cases h' with
          | cons _ h' => exact ih hnodup.2 h h'
          | cons_cons _ h' => exact hnodup.1 (h.subset (by simp))
      | cons_cons _ h =>
          cases h' with
          | cons _ h' => exact hnodup.1 (h'.subset (by simp))
          | cons_cons _ h' => exact hnodup.1 (h'.subset (by simp))

theorem before_total {a b : α} {l : List α} (ha : a ∈ l) (hb : b ∈ l) (hne : a ≠ b) :
    [a, b] <+ l ∨ [b, a] <+ l := by
  induction l with
  | nil => cases ha
  | cons x rest ih =>
      rcases List.mem_cons.1 ha with rfl | harest
      · rcases List.mem_cons.1 hb with rfl | hbrest
        · exact absurd rfl hne
        · exact .inl (.cons_cons _ (List.singleton_sublist.2 hbrest))
      · rcases List.mem_cons.1 hb with rfl | hbrest
        · exact .inr (.cons_cons _ (List.singleton_sublist.2 harest))
        · exact (ih harest hbrest).imp (.cons x) (.cons x)

/-- A filter that lets two items pass does not change which comes first. -/
theorem before_filter {p : α → Bool} {a b : α} {l : List α} :
    [a, b] <+ l.filter p ↔ p a = true ∧ p b = true ∧ [a, b] <+ l := by
  constructor
  · intro h
    have hmem : ∀ c ∈ [a, b], p c = true := fun c hc => (List.mem_filter.1 (h.subset hc)).2
    exact ⟨hmem a (by simp), hmem b (by simp), h.trans List.filter_sublist⟩
  · rintro ⟨ha, hb, h⟩
    have hkept := h.filter p
    rwa [List.filter_cons_of_pos ha, List.filter_cons_of_pos hb] at hkept

variable (r : α → α → Prop) [DecidableRel r] [IsTrans α r]

theorem filter_orderedInsert (p : α → Bool) (a : α) {l : List α} (h : l.Pairwise r) :
    (l.orderedInsert r a).filter p =
      if p a then (l.filter p).orderedInsert r a else l.filter p := by
  induction l with
  | nil => by_cases ha : p a = true <;> simp [ha]
  | cons b rest ih =>
      obtain ⟨hhead, htail⟩ := List.pairwise_cons.1 h
      rw [List.orderedInsert_cons]
      split
      · next hab =>
          have hall : ∀ c ∈ (b :: rest).filter p, r a c := by
            intro c hc
            rcases List.mem_cons.1 (List.mem_filter.1 hc).1 with rfl | hrest
            · exact hab
            · exact IsTrans.trans _ _ _ hab (hhead c hrest)
          have hfirst : ((b :: rest).filter p).orderedInsert r a = a :: (b :: rest).filter p := by
            cases hkept : (b :: rest).filter p with
            | nil => rfl
            | cons c more =>
                rw [List.orderedInsert_cons, if_pos (hall c (hkept ▸ List.mem_cons_self))]
          rw [List.filter_cons, hfirst]
      · next hab =>
          rw [List.filter_cons, ih htail, List.filter_cons]
          by_cases ha : p a = true <;> by_cases hb : p b = true <;>
            simp [ha, hb, List.orderedInsert_cons, hab]

variable [Std.Total r]

/-- What a filter leaves is sorted as it would be alone. -/
theorem filter_insertionSort (p : α → Bool) (l : List α) :
    (l.insertionSort r).filter p = (l.filter p).insertionSort r := by
  induction l with
  | nil => rfl
  | cons a rest ih =>
      rw [List.insertionSort_cons, filter_orderedInsert r p a (List.pairwise_insertionSort r rest),
        ih, List.filter_cons]
      split <;> rfl

/-- In a sorted list one item comes before another because it is less, or because it came first. -/
theorem before_of_sorted {l : List α} (hnodup : l.Nodup) {a b : α}
    (h : [a, b] <+ l.insertionSort r) : r a b ∧ (r b a → [a, b] <+ l) := by
  have hperm := List.perm_insertionSort r l
  refine ⟨List.pairwise_iff_forall_sublist.1 (List.pairwise_insertionSort r l) h, fun hba => ?_⟩
  have hsorted : (l.insertionSort r).Nodup := hperm.nodup_iff.2 hnodup
  have hne : a ≠ b := List.pairwise_iff_forall_sublist.1 hsorted h
  have ha : a ∈ l := hperm.mem_iff.1 (h.subset (by simp))
  have hb : b ∈ l := hperm.mem_iff.1 (h.subset (by simp))
  refine (before_total ha hb hne).resolve_right fun hlate => ?_
  exact before_asymm hsorted h (List.pair_sublist_insertionSort hba hlate)

/-- Two arrangements of the same items sort alike exactly if tied items stand alike. -/
theorem insertionSort_eq_iff {l l' : List α} (hnodup : l.Nodup) (hperm : l.Perm l') :
    l.insertionSort r = l'.insertionSort r ↔
      ∀ a b, r a b → r b a → ([a, b] <+ l ↔ [a, b] <+ l') := by
  have hnodup' : l'.Nodup := hperm.nodup_iff.1 hnodup
  have hsorted := List.perm_insertionSort r l
  have hsorted' := List.perm_insertionSort r l'
  constructor
  · intro heq a b hab hba
    constructor
    · intro h
      exact (before_of_sorted r hnodup' (heq ▸ List.pair_sublist_insertionSort hab h)).2 hba
    · intro h
      exact (before_of_sorted r hnodup (heq ▸ List.pair_sublist_insertionSort hab h)).2 hba
  · intro hties
    have hpairs : (l.insertionSort r).Pairwise fun a b => r a b ∧ (r b a → [a, b] <+ l) :=
      List.pairwise_iff_forall_sublist.2 fun h => before_of_sorted r hnodup h
    have hpairs' : (l'.insertionSort r).Pairwise fun a b => r a b ∧ (r b a → [a, b] <+ l) := by
      refine List.pairwise_iff_forall_sublist.2 fun {a b} h => ?_
      obtain ⟨hab, hfirst⟩ := before_of_sorted r hnodup' h
      exact ⟨hab, fun hba => (hties a b hab hba).2 (hfirst hba)⟩
    refine List.Perm.eq_of_pairwise ?_ hpairs hpairs' (hsorted.trans (hperm.trans hsorted'.symm))
    intro a b _ _ hab hba
    exact (before_asymm hnodup (hab.2 hba.1) (hba.2 hab.1)).elim

end StableSort
