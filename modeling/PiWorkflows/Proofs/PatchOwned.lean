import Mathlib.Algebra.BigOperators.Group.List.Basic
import Mathlib.Algebra.Order.Group.Multiset
import PiWorkflows.Workflows.PatchMemory

/-!
# Values that own their cells

A clone is a tree of fresh cells: no cell of it is reached twice, and nothing
outside refers to one. `Owned` is such a tree with its addresses written in,
`Owns` says that a memory holds its cells apart from each other and above a given
address. A write into one of the cells then changes the tree in that one place
and nothing else (`Owns.store`), which is what makes writing in place as good as
building a new value.
-/

namespace PiWorkflows.InPlace

/-! ## Trees of cells -/

/-- A value with the addresses of its cells. -/
inductive Owned where
  | scalar (s : Scalar)
  | arr (address : Nat) (items : List Owned)
  | obj (address : Nat) (members : List (String × Owned))

namespace Owned

/-- What a variable that holds the value holds. -/
def slot : Owned → Slot
  | .scalar s => .scalar s
  | .arr address _ | .obj address _ => .ref address

mutual

/-- The value without its addresses. -/
def value : Owned → Json
  | .scalar s => s.json
  | .arr _ items => .arr (values items)
  | .obj _ members => .obj (memberValues members)

def values : List Owned → List Json
  | [] => []
  | item :: rest => item.value :: values rest

def memberValues : List (String × Owned) → List (String × Json)
  | [] => []
  | (name, member) :: rest => (name, member.value) :: memberValues rest

end

mutual

/-- The cells of the value, each with its address. -/
def cells : Owned → Multiset (Nat × Cell)
  | .scalar _ => 0
  | .arr address items => (address, .arr (items.map slot)) ::ₘ itemCells items
  | .obj address members => (address, .obj (Assoc.mapValues slot members)) ::ₘ memberCells members

def itemCells : List Owned → Multiset (Nat × Cell)
  | [] => 0
  | item :: rest => item.cells + itemCells rest

def memberCells : List (String × Owned) → Multiset (Nat × Cell)
  | [] => 0
  | (_, member) :: rest => member.cells + memberCells rest

end

@[simp] theorem values_eq (items : List Owned) : values items = items.map value := by
  induction items with
  | nil => rfl
  | cons item rest ih => rw [values, ih, List.map_cons]

@[simp] theorem memberValues_eq (members : List (String × Owned)) :
    memberValues members = Assoc.mapValues value members := by
  induction members with
  | nil => rfl
  | cons member rest ih =>
      obtain ⟨name, member⟩ := member
      rw [memberValues, ih]
      rfl

theorem itemCells_eq (items : List Owned) : itemCells items = (items.map cells).sum := by
  induction items with
  | nil => rfl
  | cons item rest ih => rw [itemCells, ih, List.map_cons, List.sum_cons]

/-- The order of items does not matter to the cells. -/
theorem itemCells_perm {items items' : List Owned} (h : items.Perm items') :
    itemCells items = itemCells items' := by
  rw [itemCells_eq, itemCells_eq]
  exact (h.map cells).sum_eq

theorem itemCells_at {items : List Owned} {i : Nat} {item : Owned} (h : items[i]? = some item) :
    itemCells items = item.cells + itemCells (items.eraseIdx i) := by
  obtain ⟨hi, rfl⟩ := List.getElem?_eq_some_iff.1 h
  rw [itemCells_perm (List.getElem_cons_eraseIdx_perm hi).symm, itemCells]

theorem itemCells_set {items : List Owned} {i : Nat} (hi : i < items.length) (item : Owned) :
    itemCells (items.set i item) = item.cells + itemCells (items.eraseIdx i) := by
  rw [itemCells_perm (List.set_perm_cons_eraseIdx hi item), itemCells]

theorem itemCells_insertIdx {items : List Owned} {i : Nat} (hi : i ≤ items.length) (item : Owned) :
    itemCells (items.insertIdx i item) = item.cells + itemCells items := by
  rw [itemCells_perm (List.perm_insertIdx item items hi), itemCells]

/-- A member, and the cells of the others: they stay when the member is exchanged. -/
theorem memberCells_at {members : List (String × Owned)} {name : String} {member : Owned}
    (h : members.lookup name = some member) :
    ∃ others, memberCells members = member.cells + others ∧
      ∀ member' : Owned, memberCells (Assoc.setKey name member' members) = member'.cells + others := by
  induction members with
  | nil => cases h
  | cons first rest ih =>
      obtain ⟨key, value⟩ := first
      by_cases hkey : key = name
      · subst hkey
        rw [List.lookup_cons_self] at h
        cases h
        refine ⟨memberCells rest, rfl, fun member' => ?_⟩
        rw [Assoc.setKey, if_pos rfl, memberCells]
      · rw [Assoc.lookup_cons_eq, if_neg (Ne.symm hkey)] at h
        obtain ⟨others, hrest, hset⟩ := ih h
        refine ⟨value.cells + others, ?_, fun member' => ?_⟩
        · rw [memberCells, hrest, add_left_comm]
        · rw [Assoc.setKey, if_neg hkey, memberCells, hset, add_left_comm]

theorem memberCells_setKey (members : List (String × Owned)) (name : String) (member : Owned) :
    memberCells (Assoc.setKey name member members) ≤ member.cells + memberCells members := by
  cases h : members.lookup name with
  | some old =>
      obtain ⟨others, hmembers, hset⟩ := memberCells_at h
      rw [hset, hmembers]
      exact add_le_add_right (Multiset.le_add_left _ _) _
  | none =>
      induction members with
      | nil => exact le_rfl
      | cons first rest ih =>
          obtain ⟨key, value⟩ := first
          rw [Assoc.lookup_cons_eq] at h
          split at h
          · cases h
          · next hkey =>
              rw [Assoc.setKey, if_neg (Ne.symm hkey), memberCells, memberCells,
                add_left_comm member.cells]
              exact add_le_add_right (ih h) _

theorem memberCells_eraseKey_le (members : List (String × Owned)) (name : String) :
    memberCells (Assoc.eraseKey name members) ≤ memberCells members := by
  induction members with
  | nil => exact le_rfl
  | cons first rest ih =>
      obtain ⟨key, value⟩ := first
      rw [Assoc.eraseKey, List.filter_cons]
      split
      · exact add_le_add_right ih _
      · exact ih.trans (Multiset.le_add_left _ _)

theorem memberCells_eraseKey {members : List (String × Owned)} {name : String} {member : Owned}
    (h : members.lookup name = some member) :
    member.cells + memberCells (Assoc.eraseKey name members) ≤ memberCells members := by
  induction members with
  | nil => cases h
  | cons first rest ih =>
      obtain ⟨key, value⟩ := first
      by_cases hkey : key = name
      · subst hkey
        rw [List.lookup_cons_self] at h
        cases h
        rw [Assoc.eraseKey, List.filter_cons, if_neg (by simp), memberCells]
        exact add_le_add_right (memberCells_eraseKey_le rest key) _
      · rw [Assoc.lookup_cons_eq, if_neg (Ne.symm hkey)] at h
        rw [Assoc.eraseKey, List.filter_cons, if_pos (by simpa using hkey), memberCells,
          memberCells, add_left_comm]
        exact add_le_add_right (ih h) _

end Owned

/-! ## Memories that hold them -/

/-- The memory holds the cells, every one at an address of its own, none below `n`. -/
structure Owns (n : Nat) (memory : Memory) (cells : Multiset (Nat × Cell)) : Prop where
  held : ∀ a c, (a, c) ∈ cells → memory[a]? = some c
  apart : (cells.map Prod.fst).Nodup
  own : ∀ a c, (a, c) ∈ cells → n ≤ a

/-- What stood below `n` stands there still. -/
def Kept (n : Nat) (memory memory' : Memory) : Prop :=
  ∀ a < n, memory'[a]? = memory[a]?

theorem Kept.refl (n : Nat) (memory : Memory) : Kept n memory memory := fun _ _ => rfl

theorem Kept.trans {n : Nat} {memory memory' memory'' : Memory} (h : Kept n memory memory')
    (h' : Kept n memory' memory'') : Kept n memory memory'' :=
  fun a ha => (h' a ha).trans (h a ha)

theorem kept_append {n : Nat} {memory more : Memory} (hn : n ≤ memory.length) :
    Kept n memory (memory ++ more) :=
  fun _ ha => List.getElem?_append_left (Nat.lt_of_lt_of_le ha hn)

theorem kept_store {n a : Nat} {memory : Memory} {cell : Cell} (hn : n ≤ a) :
    Kept n memory (memory.set a cell) :=
  fun b hb => List.getElem?_set_ne (by omega)

namespace Owns

variable {n : Nat} {memory more : Memory} {cells cells' : Multiset (Nat × Cell)}

theorem mono (h : Owns n memory cells) (hle : cells' ≤ cells) : Owns n memory cells' where
  held a c hmem := h.held a c (Multiset.mem_of_le hle hmem)
  apart := Multiset.nodup_of_le (Multiset.map_le_map hle) h.apart
  own a c hmem := h.own a c (Multiset.mem_of_le hle hmem)

theorem zero : Owns n memory 0 where
  held _ _ hmem := absurd hmem (Multiset.notMem_zero _)
  apart := Multiset.nodup_zero
  own _ _ hmem := absurd hmem (Multiset.notMem_zero _)

/-- A write into one of the cells leaves the others as they are. -/
theorem store {a : Nat} {c : Cell} (h : Owns n memory ((a, c) ::ₘ cells)) (c' : Cell) :
    Owns n (memory.set a c') ((a, c') ::ₘ cells) := by
  have hapart := h.apart
  rw [Multiset.map_cons, Multiset.nodup_cons] at hapart
  refine ⟨fun b d hmem => ?_, ?_, fun b d hmem => ?_⟩
  · rcases Multiset.mem_cons.1 hmem with heq | hmem
    · cases heq
      have hthere := h.held a c (Multiset.mem_cons_self _ _)
      exact List.getElem?_set_self (List.getElem?_eq_some_iff.1 hthere).1
    · have hne : a ≠ b := by
        rintro rfl
        exact hapart.1 (Multiset.mem_map.2 ⟨(a, d), hmem, rfl⟩)
      rw [List.getElem?_set_ne hne]
      exact h.held b d (Multiset.mem_cons_of_mem hmem)
  · rw [Multiset.map_cons, Multiset.nodup_cons]
    exact hapart
  · rcases Multiset.mem_cons.1 hmem with heq | hmem
    · cases heq
      exact h.own a c (Multiset.mem_cons_self _ _)
    · exact h.own b d (Multiset.mem_cons_of_mem hmem)

/-- Fresh cells behind a memory are apart from all that it holds. -/
theorem fresh (h : Owns n memory cells) (hn : n ≤ memory.length)
    (hfresh : Owns memory.length (memory ++ more) cells') :
    Owns n (memory ++ more) (cells + cells') := by
  have hbelow : ∀ a c, (a, c) ∈ cells → a < memory.length := fun a c hmem =>
    (List.getElem?_eq_some_iff.1 (h.held a c hmem)).1
  refine ⟨fun a c hmem => ?_, ?_, fun a c hmem => ?_⟩
  · rcases Multiset.mem_add.1 hmem with hmem | hmem
    · rw [List.getElem?_append_left (hbelow a c hmem)]
      exact h.held a c hmem
    · exact hfresh.held a c hmem
  · rw [Multiset.map_add, Multiset.nodup_add]
    refine ⟨h.apart, hfresh.apart, Multiset.disjoint_left.2 ?_⟩
    intro a ha ha'
    obtain ⟨⟨a, c⟩, hmem, rfl⟩ := Multiset.mem_map.1 ha
    obtain ⟨⟨b, c'⟩, hmem', heq⟩ := Multiset.mem_map.1 ha'
    obtain rfl : b = a := heq
    exact absurd (hbelow b c hmem) (Nat.not_lt.2 (hfresh.own b c' hmem'))
  · rcases Multiset.mem_add.1 hmem with hmem | hmem
    · exact h.own a c hmem
    · exact hn.trans (hfresh.own a c hmem)

/-- A cell put behind a memory that holds the cells it refers to. -/
theorem push (h : Owns n memory cells) (hn : n ≤ memory.length) (c : Cell) :
    Owns n (memory ++ [c]) ((memory.length, c) ::ₘ cells) := by
  rw [← Multiset.singleton_add, add_comm]
  refine h.fresh hn ⟨fun a d hmem => ?_, Multiset.nodup_singleton _, fun a d hmem => ?_⟩
  · cases Multiset.mem_singleton.1 hmem
    exact List.getElem?_concat_length
  · cases Multiset.mem_singleton.1 hmem
    exact le_rfl

end Owns

end PiWorkflows.InPlace
