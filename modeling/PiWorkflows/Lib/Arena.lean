import Mathlib.Data.List.Basic

/-!
# Cells by address

Objects of one kind are a list of cells, and the address of an object is its
place in the list. A new object goes behind the others, so what was there stays a
prefix of what is there, unless one of its cells is written.
-/

namespace Arena

variable {α : Type*} {cells cells' : List α} {a b : Nat} {d x : α} {g : α → α}

theorem read_prefix (h : cells <+: cells') (ha : a < cells.length) (d : α) :
    cells'.getD a d = cells.getD a d := by
  obtain ⟨more, rfl⟩ := h
  rw [List.getD_eq_getElem?_getD, List.getD_eq_getElem?_getD, List.getElem?_append_left ha]

theorem read_new (cells : List α) (x d : α) : (cells ++ [x]).getD cells.length d = x := by
  simp [List.getD_eq_getElem?_getD]

theorem read_modify (ha : a < cells.length) (d : α) :
    (cells.modify a g).getD b d = if b = a then g (cells.getD a d) else cells.getD b d := by
  rw [List.getD_eq_getElem?_getD, List.getD_eq_getElem?_getD, List.getD_eq_getElem?_getD]
  by_cases hb : b = a
  · rw [if_pos hb, hb, List.getElem?_modify_eq, List.getElem?_eq_getElem ha]
    rfl
  · rw [if_neg hb, List.getElem?_modify_ne _ _ (Ne.symm hb)]

theorem prefix_modify (h : cells <+: cells') (ha : cells.length ≤ a) (g : α → α) :
    cells <+: cells'.modify a g := by
  rw [List.prefix_iff_getElem?] at h ⊢
  intro i hi
  rw [List.getElem?_modify_ne _ _ (by omega)]
  exact h i hi

end Arena
