import Mathlib.Data.List.Lex
import Mathlib.Order.Lattice

/-!
# Association lists as ordered records

A record of a dynamic language is an association list: its members stand in the
order they were created, a lookup reads the first one with the name, an
assignment overwrites in place or appends, a deletion removes. This file fixes
those operations over any key type and proves the one fact every client wants
from each of them, its effect on `List.lookup`.

The second half is about records whose order must not matter. Sorting by a rank
into a linear order gives a canonical list, and a canonical list is determined
by its lookups (`sorted_ext`), so two records that answer every lookup alike
sort to the same list. Duplicate keys need no side condition anywhere: the first
one is the one that is read, and `sortMembers` keeps exactly that one.
-/

namespace Assoc

universe u v w

variable {κ : Type u} {α : Type v} [DecidableEq κ]

/-- Assignment: the first member with the key is overwritten where it stands,
and a new key goes to the end. -/
def setKey (k : κ) (x : α) : List (κ × α) → List (κ × α)
  | [] => [(k, x)]
  | (k', y) :: rest => if k' = k then (k, x) :: rest else (k', y) :: setKey k x rest

/-- Deletion: no member with the key is left. -/
def eraseKey (k : κ) (l : List (κ × α)) : List (κ × α) :=
  l.filter fun e => e.1 ≠ k

theorem lookup_cons_eq (k q : κ) (x : α) (l : List (κ × α)) :
    ((k, x) :: l).lookup q = if q = k then some x else l.lookup q := by
  rw [List.lookup_cons]
  by_cases h : q = k
  · simp [h]
  · simp [h, beq_eq_false_iff_ne.2 h]

theorem lookup_setKey (k q : κ) (x : α) (l : List (κ × α)) :
    (setKey k x l).lookup q = if q = k then some x else l.lookup q := by
  induction l with
  | nil =>
      by_cases h : q = k
      · subst h; simp [setKey]
      · simp [setKey, lookup_cons_eq, h]
  | cons e rest ih =>
      obtain ⟨k', y⟩ := e
      by_cases hk : k' = k
      · subst hk
        by_cases h : q = k'
        · subst h; simp [setKey]
        · simp [setKey, lookup_cons_eq, h]
      · rw [setKey, if_neg hk, lookup_cons_eq, ih, lookup_cons_eq]
        by_cases h : q = k'
        · subst h; simp [hk]
        · simp [h]

theorem mem_keys_setKey {k q : κ} {x : α} {l : List (κ × α)} :
    q ∈ (setKey k x l).map Prod.fst ↔ q = k ∨ q ∈ l.map Prod.fst := by
  induction l with
  | nil => simp [setKey]
  | cons e rest ih =>
      obtain ⟨k', y⟩ := e
      rw [setKey]
      split
      · next hk =>
          subst hk
          simp
      · rw [List.map_cons, List.mem_cons, ih, List.map_cons, List.mem_cons]
        exact or_left_comm

theorem mem_values_setKey {k : κ} {x y : α} {l : List (κ × α)}
    (h : y ∈ (setKey k x l).map Prod.snd) : y = x ∨ y ∈ l.map Prod.snd := by
  induction l with
  | nil => simpa [setKey] using h
  | cons e rest ih =>
      obtain ⟨k', z⟩ := e
      rw [setKey] at h
      rw [List.map_cons, List.mem_cons]
      split at h
      · rcases List.mem_cons.1 h with h | h
        · exact .inl h
        · exact .inr (.inr h)
      · rcases List.mem_cons.1 h with h | h
        · exact .inr (.inl h)
        · exact (ih h).imp_right .inr

theorem nodup_keys_setKey {k : κ} {x : α} {l : List (κ × α)} (h : (l.map Prod.fst).Nodup) :
    ((setKey k x l).map Prod.fst).Nodup := by
  induction l with
  | nil => simp [setKey]
  | cons e rest ih =>
      obtain ⟨k', y⟩ := e
      rw [List.map_cons, List.nodup_cons] at h
      rw [setKey]
      split
      · next hk =>
          subst hk
          exact List.nodup_cons.2 h
      · next hk =>
          refine List.nodup_cons.2 ⟨?_, ih h.2⟩
          rw [mem_keys_setKey]
          exact fun hmem => hmem.elim hk h.1

/-- A new key goes to the end. -/
theorem setKey_of_notMem {k : κ} {x : α} {l : List (κ × α)} (h : k ∉ l.map Prod.fst) :
    setKey k x l = l ++ [(k, x)] := by
  induction l with
  | nil => rfl
  | cons e rest ih =>
      obtain ⟨k', y⟩ := e
      rw [List.map_cons, List.mem_cons, not_or] at h
      rw [setKey, if_neg (Ne.symm h.1), ih h.2, List.cons_append]

/-- What a member already holds may be assigned to it. -/
theorem setKey_of_lookup {k : κ} {x : α} {l : List (κ × α)} (h : l.lookup k = some x) :
    setKey k x l = l := by
  induction l with
  | nil => cases h
  | cons e rest ih =>
      obtain ⟨k', y⟩ := e
      rw [lookup_cons_eq] at h
      by_cases hk : k' = k
      · subst hk
        rw [if_pos rfl] at h
        cases h
        rw [setKey, if_pos rfl]
      · rw [if_neg (Ne.symm hk)] at h
        rw [setKey, if_neg hk, ih h]

theorem lookup_eraseKey (k q : κ) (l : List (κ × α)) :
    (eraseKey k l).lookup q = if q = k then none else l.lookup q := by
  induction l with
  | nil => simp [eraseKey]
  | cons e rest ih =>
      obtain ⟨k', y⟩ := e
      unfold eraseKey at ih ⊢
      by_cases hk : k' = k
      · subst hk
        rw [List.filter_cons_of_neg (by simp), ih, lookup_cons_eq]
        by_cases h : q = k'
        · simp [h]
        · simp [h]
      · rw [List.filter_cons_of_pos (by simpa using hk), lookup_cons_eq, ih,
          lookup_cons_eq]
        by_cases h : q = k'
        · subst h; simp [hk]
        · simp [h]

theorem mem_of_lookup {k : κ} {x : α} {l : List (κ × α)} (h : l.lookup k = some x) :
    (k, x) ∈ l := by
  obtain ⟨l₁, l₂, rfl, _⟩ := List.lookup_eq_some_iff.1 h
  simp

theorem lookup_of_mem {k : κ} {x : α} {l : List (κ × α)} (hnodup : (l.map Prod.fst).Nodup)
    (h : (k, x) ∈ l) : l.lookup k = some x := by
  induction l with
  | nil => cases h
  | cons e rest ih =>
      obtain ⟨k', y⟩ := e
      rw [lookup_cons_eq]
      rw [List.map_cons, List.nodup_cons] at hnodup
      rcases List.mem_cons.1 h with heq | hrest
      · cases heq
        rw [if_pos rfl]
      · have hne : k ≠ k' := by
          rintro rfl
          exact hnodup.1 (List.mem_map.2 ⟨(k, x), hrest, rfl⟩)
        rw [if_neg hne]
        exact ih hnodup.2 hrest

/-- Members with distinct keys, set one after another, end up in that order. -/
theorem foldl_setKey {members done : List (κ × α)} (h : ((done ++ members).map Prod.fst).Nodup) :
    members.foldl (fun l e => setKey e.1 e.2 l) done = done ++ members := by
  induction members generalizing done with
  | nil => exact (List.append_nil done).symm
  | cons e rest ih =>
      have hnew : e.1 ∉ done.map Prod.fst := by
        rw [List.map_append, List.nodup_append] at h
        exact fun hk => h.2.2 e.1 hk e.1 (List.mem_map_of_mem List.mem_cons_self) rfl
      rw [List.foldl_cons, setKey_of_notMem hnew, ih (by simpa using h), List.append_assoc]
      rfl

/-! ## Mapping the values -/

/-- The same members with every value mapped. -/
def mapValues {β : Type w} (f : α → β) (l : List (κ × α)) : List (κ × β) :=
  l.map fun e => (e.1, f e.2)

theorem mapValues_setKey {β : Type w} (f : α → β) (k : κ) (x : α) (l : List (κ × α)) :
    mapValues f (setKey k x l) = setKey k (f x) (mapValues f l) := by
  induction l with
  | nil => rfl
  | cons e rest ih =>
      obtain ⟨k', y⟩ := e
      by_cases h : k' = k
      · rw [setKey, if_pos h]
        show (k, f x) :: mapValues f rest = setKey k (f x) ((k', f y) :: mapValues f rest)
        rw [setKey, if_pos h]
      · rw [setKey, if_neg h]
        show (k', f y) :: mapValues f (setKey k x rest) =
          setKey k (f x) ((k', f y) :: mapValues f rest)
        rw [setKey, if_neg h, ih]

theorem mapValues_eraseKey {β : Type w} (f : α → β) (k : κ) (l : List (κ × α)) :
    mapValues f (eraseKey k l) = eraseKey k (mapValues f l) := by
  rw [mapValues, mapValues, eraseKey, eraseKey, List.filter_map]
  rfl

/-- A map that may look at the name. -/
theorem lookup_map {β : Type w} (f : κ → α → β) (k : κ) (l : List (κ × α)) :
    (l.map fun e => (e.1, f e.1 e.2)).lookup k = (l.lookup k).map (f k) := by
  induction l with
  | nil => rfl
  | cons e rest ih =>
      obtain ⟨k', y⟩ := e
      rw [List.map_cons, lookup_cons_eq, lookup_cons_eq, ih]
      by_cases h : k = k'
      · subst h; simp
      · simp [h]

/-! ## Records in canonical order -/

section Sorted

variable {ρ : Type w} [LinearOrder ρ] (rank : κ → ρ)

/-- Strictly increasing ranks, so in particular no key twice. -/
def Sorted (l : List (κ × α)) : Prop :=
  l.Pairwise fun e f => rank e.1 < rank f.1

/-- Put a member into a sorted record, over the one with its key if there is
one. -/
def insertMember (k : κ) (x : α) : List (κ × α) → List (κ × α)
  | [] => [(k, x)]
  | (k', y) :: rest =>
      if rank k < rank k' then (k, x) :: (k', y) :: rest
      else if k = k' then (k, x) :: rest
      else (k', y) :: insertMember k x rest

variable {rank}

/-- A map over the values goes past the insertion. -/
theorem mapValues_insertMember {β : Type*} (f : α → β) (k : κ) (x : α) (l : List (κ × α)) :
    mapValues f (insertMember rank k x l) = insertMember rank k (f x) (mapValues f l) := by
  induction l with
  | nil => rfl
  | cons e rest ih =>
      obtain ⟨k', y⟩ := e
      show _ = insertMember rank k (f x) ((k', f y) :: mapValues f rest)
      rw [insertMember, insertMember]
      split
      · rfl
      · split
        · rfl
        · rw [← ih]
          rfl

theorem mem_insertMember {k : κ} {x : α} {l : List (κ × α)} {e : κ × α}
    (h : e ∈ insertMember rank k x l) : e = (k, x) ∨ e ∈ l := by
  induction l with
  | nil => simpa [insertMember] using h
  | cons f rest ih =>
      obtain ⟨k', y⟩ := f
      rw [insertMember] at h
      split at h
      · simpa using h
      · split at h
        · rcases List.mem_cons.1 h with h | h
          · exact .inl h
          · exact .inr (List.mem_cons_of_mem _ h)
        · rcases List.mem_cons.1 h with h | h
          · exact .inr (h ▸ List.mem_cons_self)
          · rcases ih h with h | h
            · exact .inl h
            · exact .inr (List.mem_cons_of_mem _ h)

theorem sorted_insertMember (hrank : Function.Injective rank) (k : κ) (x : α)
    {l : List (κ × α)} (hl : Sorted rank l) : Sorted rank (insertMember rank k x l) := by
  induction l with
  | nil => exact List.pairwise_singleton _ _
  | cons f rest ih =>
      obtain ⟨k', y⟩ := f
      obtain ⟨hhead, htail⟩ := List.pairwise_cons.1 hl
      rw [insertMember]
      split
      · next hlt =>
          refine List.pairwise_cons.2 ⟨?_, hl⟩
          intro e he
          rcases List.mem_cons.1 he with rfl | he
          · exact hlt
          · exact hlt.trans (hhead e he)
      · next hnlt =>
          split
          · next heq => subst heq; exact List.pairwise_cons.2 ⟨hhead, htail⟩
          · next hne =>
              have hgt : rank k' < rank k :=
                lt_of_le_of_ne (not_lt.1 hnlt) fun h => hne (hrank h).symm
              refine List.pairwise_cons.2 ⟨?_, ih htail⟩
              intro e he
              rcases mem_insertMember he with rfl | he
              · exact hgt
              · exact hhead e he

theorem lookup_none_of_sorted {k : κ} {x : α} {l : List (κ × α)}
    (h : Sorted rank ((k, x) :: l)) : l.lookup k = none := by
  rw [List.lookup_eq_none_iff]
  intro e he
  have hlt := (List.pairwise_cons.1 h).1 e he
  simp only [bne_iff_ne, ne_eq]
  rintro rfl
  exact lt_irrefl _ hlt

/-- The canonical order does not disturb what a lookup answers. -/
theorem lookup_insertMember {k q : κ} {x : α} {l : List (κ × α)} (hl : Sorted rank l) :
    (insertMember rank k x l).lookup q = if q = k then some x else l.lookup q := by
  induction l with
  | nil => by_cases h : q = k <;> simp [insertMember, lookup_cons_eq, h]
  | cons f rest ih =>
      obtain ⟨k', y⟩ := f
      rw [insertMember]
      split
      · next hlt =>
          by_cases h : q = k
          · simp [h]
          · simp [lookup_cons_eq, h]
      · split
        · next heq =>
            subst heq
            by_cases h : q = k <;> simp [lookup_cons_eq, h]
        · next hne =>
            rw [lookup_cons_eq, ih (List.pairwise_cons.1 hl).2, lookup_cons_eq]
            by_cases h : q = k'
            · subst h; simp [Ne.symm hne]
            · simp [h]

theorem mem_tail_of_lookup_cons {k q : κ} {x y : α} {l : List (κ × α)}
    (h : ((k, x) :: l).lookup q = some y) (hne : q ≠ k) : (q, y) ∈ l := by
  rw [lookup_cons_eq, if_neg hne] at h
  exact mem_of_lookup h

/-- A record in canonical order is determined by its lookups. -/
theorem sorted_ext {l l' : List (κ × α)} (hl : Sorted rank l) (hl' : Sorted rank l')
    (h : ∀ q, l.lookup q = l'.lookup q) : l = l' := by
  induction l generalizing l' with
  | nil =>
      cases l' with
      | nil => rfl
      | cons f rest =>
          obtain ⟨k', x'⟩ := f
          exact absurd (h k') (by simp)
  | cons e rest ih =>
      cases l' with
      | nil =>
          obtain ⟨k, x⟩ := e
          exact absurd (h k) (by simp)
      | cons f rest' =>
          obtain ⟨k, x⟩ := e
          obtain ⟨k', x'⟩ := f
          have hkk : k = k' := by
            by_contra hne
            -- Each head would have to stand in the other tail, above its own head.
            have h₁ := (h k).symm
            rw [List.lookup_cons_self] at h₁
            have h₂ := h k'
            rw [List.lookup_cons_self] at h₂
            have hlt := (List.pairwise_cons.1 hl').1 _ (mem_tail_of_lookup_cons h₁ hne)
            have hgt := (List.pairwise_cons.1 hl).1 _
              (mem_tail_of_lookup_cons h₂ (Ne.symm hne))
            exact lt_asymm hlt hgt
          subst hkk
          have hx : x = x' := by simpa using h k
          subst hx
          congr 1
          refine ih (List.pairwise_cons.1 hl).2 (List.pairwise_cons.1 hl').2 fun q => ?_
          by_cases hq : q = k
          · rw [hq, lookup_none_of_sorted hl, lookup_none_of_sorted hl']
          · simpa [lookup_cons_eq, hq] using h q

end Sorted

end Assoc
