import Mathlib.Data.List.Basic

/-!
# Streams of delimited records

Records without the delimiter are sent one after the other, each with the
delimiter behind it. A reader cuts what it has at the first delimiter. Whatever
part of the stream it has, that part ends inside the first record or begins with
all of it (`begins`), so a reader that keeps what it could not cut never needs to
know where the stream was divided.
-/

universe u

namespace Lines

variable {α : Type u} {sep : α}

/-- What stands before the first delimiter, and what stands behind it. -/
def cut [DecidableEq α] (sep : α) : List α → Option (List α × List α)
  | [] => none
  | a :: rest => if a = sep then some ([], rest) else (cut sep rest).map fun r => (a :: r.1, r.2)

/-- The stream of the records. -/
def join (sep : α) (records : List (List α)) : List α :=
  records.flatMap fun record => record ++ [sep]

@[simp] theorem join_nil : join sep ([] : List (List α)) = [] := rfl

section

variable [DecidableEq α]

theorem length_of_cut {l record rest : List α} (h : cut sep l = some (record, rest)) :
    rest.length < l.length := by
  induction l generalizing record with
  | nil => cases h
  | cons a l ih =>
      rw [cut] at h
      split at h
      · cases h
        exact Nat.lt_succ_self _
      · obtain ⟨⟨record', rest'⟩, hcut, heq⟩ := Option.map_eq_some_iff.1 h
        cases heq
        exact Nat.lt_succ_of_lt (ih hcut)

/-! ## All records at once -/

/-- The records that are complete, and what stands behind the last delimiter. -/
def split (sep : α) : List α → List (List α) × List α
  | [] => ([], [])
  | a :: rest =>
      if a = sep then ([] :: (split sep rest).1, (split sep rest).2)
      else
        match (split sep rest).1 with
        | [] => ([], a :: (split sep rest).2)
        | record :: records => ((a :: record) :: records, (split sep rest).2)

/-- The records, with what stands behind the last delimiter as the last of them. -/
def pieces (sep : α) (l : List α) : List (List α) :=
  (split sep l).1 ++ [(split sep l).2]

theorem split_sep (rest : List α) :
    split sep (sep :: rest) = ([] :: (split sep rest).1, (split sep rest).2) := by
  rw [split, if_pos rfl]

theorem split_open {a : α} {rest : List α} (ha : a ≠ sep) (h : (split sep rest).1 = []) :
    split sep (a :: rest) = ([], a :: (split sep rest).2) := by
  rw [split, if_neg ha, h]

theorem split_closed {a : α} {rest record : List α} {records : List (List α)} (ha : a ≠ sep)
    (h : (split sep rest).1 = record :: records) :
    split sep (a :: rest) = ((a :: record) :: records, (split sep rest).2) := by
  rw [split, if_neg ha, h]

/-- What stands behind the last delimiter is all that has to be kept of the text so far. -/
theorem split_append (part rest : List α) :
    split sep (part ++ rest) =
      ((split sep part).1 ++ (split sep ((split sep part).2 ++ rest)).1,
        (split sep ((split sep part).2 ++ rest)).2) := by
  induction part with
  | nil => rfl
  | cons a part ih =>
      by_cases ha : a = sep
      · subst ha
        rw [List.cons_append, split_sep, split_sep, ih]
        rfl
      · cases hpart : (split sep part).1 with
        | nil =>
            rw [split_open ha hpart, List.nil_append, List.cons_append, List.cons_append]
            rw [hpart, List.nil_append] at ih
            cases hmore : (split sep ((split sep part).2 ++ rest)).1 with
            | nil =>
                rw [split_open ha (by rw [ih]; exact hmore), split_open ha hmore, ih]
            | cons record records =>
                rw [split_closed ha (by rw [ih]; exact hmore), split_closed ha hmore, ih]
        | cons record records =>
            rw [hpart, List.cons_append] at ih
            rw [split_closed ha hpart, List.cons_append, split_closed ha (by rw [ih])]
            rw [ih]
            rfl

theorem pieces_append (part rest : List α) :
    pieces sep (part ++ rest) =
      (split sep part).1 ++ pieces sep ((split sep part).2 ++ rest) := by
  rw [pieces, split_append, pieces, List.append_assoc]

/-- Behind the last delimiter there is none. -/
theorem notMem_split (l : List α) : sep ∉ (split sep l).2 := by
  induction l with
  | nil => exact List.not_mem_nil
  | cons a rest ih =>
      by_cases ha : a = sep
      · subst ha
        rw [split_sep]
        exact ih
      · cases hrest : (split sep rest).1 with
        | nil =>
            rw [split_open ha hrest, List.mem_cons, not_or]
            exact ⟨fun h => ha h.symm, ih⟩
        | cons record records =>
            rw [split_closed ha hrest]
            exact ih

theorem split_of_notMem {l : List α} (h : sep ∉ l) : split sep l = ([], l) := by
  induction l with
  | nil => rfl
  | cons a rest ih =>
      rw [List.mem_cons, not_or] at h
      have hrest := ih h.2
      rw [split_open (Ne.symm h.1) (by rw [hrest]), hrest]

/-- An element that is no delimiter belongs to the first piece. -/
theorem pieces_cons {a : α} (ha : a ≠ sep) (l : List α) :
    ∃ first others, pieces sep l = first :: others ∧
      pieces sep (a :: l) = (a :: first) :: others := by
  cases hl : (split sep l).1 with
  | nil =>
      refine ⟨(split sep l).2, [], ?_, ?_⟩
      · rw [pieces, hl]
        rfl
      · rw [pieces, split_open ha hl]
        rfl
  | cons record records =>
      refine ⟨record, records ++ [(split sep l).2], ?_, ?_⟩
      · rw [pieces, hl]
        rfl
      · rw [pieces, split_closed ha hl]
        rfl

/-- A text without a delimiter begins the first piece of whatever it is the start of. -/
theorem pieces_append_of_notMem {part : List α} (h : sep ∉ part) (rest : List α) :
    ∃ more others, pieces sep (part ++ rest) = (part ++ more) :: others := by
  induction part with
  | nil =>
      cases hrest : pieces sep rest with
      | nil => exact absurd hrest (List.append_ne_nil_of_right_ne_nil _ (List.cons_ne_nil _ _))
      | cons first others => exact ⟨first, others, hrest⟩
  | cons a part ih =>
      rw [List.mem_cons, not_or] at h
      obtain ⟨more, others, hpieces⟩ := ih h.2
      obtain ⟨first, rest', hfirst, hcons⟩ := pieces_cons (Ne.symm h.1) (part ++ rest)
      rw [hpieces] at hfirst
      obtain ⟨rfl, rfl⟩ := List.cons.inj hfirst
      exact ⟨more, others, hcons⟩

/-- Every piece ends some part of the text. -/
theorem part_of_piece {l piece : List α} {k : Nat} (h : (pieces sep l)[k]? = some piece) :
    ∃ part rest, part ++ rest = l ∧ (split sep part).1.length = k ∧ (split sep part).2 = piece := by
  induction l generalizing k piece with
  | nil =>
      cases k with
      | zero =>
          cases h
          exact ⟨[], [], rfl, rfl, rfl⟩
      | succ k => cases h
  | cons a l ih =>
      by_cases ha : a = sep
      · subst ha
        rw [pieces, split_sep] at h
        cases k with
        | zero =>
            cases h
            exact ⟨[], a :: l, rfl, rfl, rfl⟩
        | succ k =>
            obtain ⟨part, rest, rfl, hlength, hlast⟩ := ih h
            refine ⟨a :: part, rest, rfl, ?_, ?_⟩
            · rw [split_sep, List.length_cons, hlength]
            · rw [split_sep, hlast]
      · obtain ⟨first, others, hfirst, hcons⟩ := pieces_cons ha l
        rw [hcons] at h
        cases k with
        | zero =>
            cases h
            obtain ⟨part, rest, rfl, hlength, hlast⟩ := ih (k := 0) (by rw [hfirst]; rfl)
            have hopen := split_open ha (List.length_eq_zero_iff.1 hlength)
            refine ⟨a :: part, rest, rfl, ?_, ?_⟩
            · rw [hopen]
              rfl
            · rw [hopen, hlast]
        | succ k =>
            obtain ⟨part, rest, rfl, hlength, hlast⟩ := ih (k := k + 1) (by rw [hfirst]; exact h)
            obtain ⟨record, records, hrecords⟩ := List.exists_cons_of_length_eq_add_one hlength
            have hclosed := split_closed ha hrecords
            refine ⟨a :: part, rest, rfl, ?_, ?_⟩
            · rw [hclosed, ← hlength, hrecords]
              rfl
            · rw [hclosed, hlast]

end

end Lines
