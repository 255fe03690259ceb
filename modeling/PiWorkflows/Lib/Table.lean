import Mathlib.Algebra.BigOperators.Group.List.Basic
import Mathlib.Tactic.Abel
import PiWorkflows.Lib.Assoc

/-!
# Tables with a primary key

A table is a list of rows under keys that are all different, so an invalid table
cannot be built. A statement of a store either inserts one row, which needs its
key to be free, or changes rows where they stand, which `modify` covers: the
change may depend on the key and on the row, and never moves a row to another
key. Everything a proof needs is the effect of these two on `get?`, and that a
search over the rows is a question about `get?`.
-/

universe u v w

/-- Rows under different keys. -/
structure Table (κ : Type u) (ρ : Type v) where
  rows : List (κ × ρ)
  nodup : (rows.map Prod.fst).Nodup

namespace Table

variable {κ : Type u} {ρ : Type v}

def empty : Table κ ρ := ⟨[], List.nodup_nil⟩

/-- Change every row, each under its own key (`UPDATE`). -/
def modify (f : κ → ρ → ρ) (t : Table κ ρ) : Table κ ρ where
  rows := t.rows.map fun e => (e.1, f e.1 e.2)
  nodup := by
    rw [List.map_map]
    exact t.nodup

/-- Remove the rows that satisfy a condition (`DELETE … WHERE`). -/
def deleteWhere (p : κ → ρ → Bool) (t : Table κ ρ) : Table κ ρ where
  rows := t.rows.filter fun e => !p e.1 e.2
  nodup := t.nodup.sublist (List.filter_sublist.map Prod.fst)

/-- Some row that satisfies the condition, with its key. -/
def find? (p : κ → ρ → Bool) (t : Table κ ρ) : Option (κ × ρ) :=
  t.rows.find? fun e => p e.1 e.2

/-- Whether some row satisfies the condition. -/
def any (p : κ → ρ → Bool) (t : Table κ ρ) : Bool :=
  t.rows.any fun e => p e.1 e.2

section

variable [DecidableEq κ]

/-- The row under a key. -/
def get? (t : Table κ ρ) (k : κ) : Option ρ :=
  t.rows.lookup k

/-- Change the rows that satisfy a condition (`UPDATE … WHERE`). -/
def updateWhere (p : κ → ρ → Bool) (f : ρ → ρ) (t : Table κ ρ) : Table κ ρ :=
  t.modify fun k r => if p k r then f r else r

/-- Change the row under a key, if there is one. -/
def update (k : κ) (f : ρ → ρ) (t : Table κ ρ) : Table κ ρ :=
  t.modify fun k' r => if k' = k then f r else r

/-- Remove the row under a key. -/
def erase (k : κ) (t : Table κ ρ) : Table κ ρ :=
  t.deleteWhere fun k' _ => k' = k

theorem not_mem_of_lookup_none {k : κ} {l : List (κ × ρ)} (h : l.lookup k = none) :
    k ∉ l.map Prod.fst := by
  intro hk
  obtain ⟨e, he, rfl⟩ := List.mem_map.1 hk
  rw [List.lookup_eq_none_iff] at h
  have hne := h e he
  simp at hne

/-- Insert a row under a free key (`INSERT`). -/
def insert (t : Table κ ρ) (k : κ) (r : ρ) (hfree : t.get? k = none) : Table κ ρ where
  rows := t.rows ++ [(k, r)]
  nodup := by
    have hk := not_mem_of_lookup_none hfree
    rw [List.map_append, List.nodup_append]
    refine ⟨t.nodup, by simp, ?_⟩
    intro a ha b hb hab
    rw [List.map_singleton, List.mem_singleton] at hb
    subst hb hab
    exact hk ha

/-- `INSERT`: refused under a key that is taken. -/
def insert? (t : Table κ ρ) (k : κ) (r : ρ) : Option (Table κ ρ) :=
  if h : t.get? k = none then some (t.insert k r h) else none

/-- Put a row under a key, over the one that is there. -/
def put (t : Table κ ρ) (k : κ) (r : ρ) : Table κ ρ :=
  ⟨Assoc.setKey k r t.rows, Assoc.nodup_keys_setKey t.nodup⟩

/-- Insert the rows whose keys are free (`INSERT … SELECT`, `ON CONFLICT DO NOTHING`). -/
def insertMissing (entries : List (κ × ρ)) (t : Table κ ρ) : Table κ ρ :=
  entries.foldl (fun t e => (t.insert? e.1 e.2).getD t) t

/-- Every row satisfies the condition. -/
def Holds (P : κ → ρ → Prop) (t : Table κ ρ) : Prop :=
  ∀ k r, t.get? k = some r → P k r

/-! ## What reads see -/

@[simp] theorem get?_empty (k : κ) : (empty : Table κ ρ).get? k = none := rfl

@[simp] theorem get?_modify (f : κ → ρ → ρ) (t : Table κ ρ) (k : κ) :
    (t.modify f).get? k = (t.get? k).map (f k) :=
  Assoc.lookup_map f k t.rows

theorem get?_put (t : Table κ ρ) (k k' : κ) (r : ρ) :
    (t.put k r).get? k' = if k' = k then some r else t.get? k' :=
  Assoc.lookup_setKey k k' r t.rows

@[simp] theorem get?_put_self (t : Table κ ρ) (k : κ) (r : ρ) : (t.put k r).get? k = some r := by
  rw [get?_put, if_pos rfl]

theorem get?_put_ne {k k' : κ} (h : k' ≠ k) (t : Table κ ρ) (r : ρ) :
    (t.put k r).get? k' = t.get? k' := by
  rw [get?_put, if_neg h]

theorem get?_update (k k' : κ) (f : ρ → ρ) (t : Table κ ρ) :
    (t.update k f).get? k' = if k' = k then (t.get? k').map f else t.get? k' := by
  rw [update, get?_modify]
  split
  · rfl
  · simp

@[simp] theorem get?_update_self (k : κ) (f : ρ → ρ) (t : Table κ ρ) :
    (t.update k f).get? k = (t.get? k).map f := by
  rw [get?_update, if_pos rfl]

theorem get?_update_ne {k k' : κ} (h : k' ≠ k) (f : ρ → ρ) (t : Table κ ρ) :
    (t.update k f).get? k' = t.get? k' := by
  rw [get?_update, if_neg h]

theorem get?_update_of_some {t : Table κ ρ} {k : κ} {r : ρ} (h : t.get? k = some r) (f : ρ → ρ)
    (k' : κ) : (t.update k f).get? k' = if k' = k then some (f r) else t.get? k' := by
  rw [get?_update]
  split
  · next heq => rw [heq, h, Option.map_some]
  · rfl

theorem isSome_get?_update (k k' : κ) (f : ρ → ρ) (t : Table κ ρ) :
    ((t.update k f).get? k').isSome = (t.get? k').isSome := by
  rw [get?_update]
  split
  · exact Option.isSome_map
  · rfl

theorem get?_updateWhere (p : κ → ρ → Bool) (f : ρ → ρ) (t : Table κ ρ) (k : κ) :
    (t.updateWhere p f).get? k = (t.get? k).map fun r => if p k r then f r else r := by
  rw [updateWhere, get?_modify]

theorem get?_insert {t : Table κ ρ} {k : κ} {r : ρ} (hfree : t.get? k = none) (k' : κ) :
    (t.insert k r hfree).get? k' = if k' = k then some r else t.get? k' := by
  rw [get?, insert, List.lookup_append]
  by_cases h : k' = k
  · subst h
    have hnone : t.rows.lookup k' = none := hfree
    simp [hnone]
  · rw [if_neg h, Assoc.lookup_cons_eq, if_neg h]
    simp [get?]

theorem insert?_eq_some {t t' : Table κ ρ} {k : κ} {r : ρ} :
    t.insert? k r = some t' ↔ ∃ h : t.get? k = none, t' = t.insert k r h := by
  unfold insert?
  split
  · next h => simp [h, eq_comm]
  · next h => simp [h]

/-- What an accepted insertion did. -/
theorem get?_of_insert? {t t' : Table κ ρ} {k : κ} {r : ρ} (h : t.insert? k r = some t') :
    t.get? k = none ∧ ∀ k', t'.get? k' = if k' = k then some r else t.get? k' := by
  obtain ⟨hfree, rfl⟩ := insert?_eq_some.1 h
  exact ⟨hfree, get?_insert hfree⟩

/-- Insert a row unless its key is taken (`ON CONFLICT DO NOTHING`). -/
theorem get?_insert?_getD (t : Table κ ρ) (k k' : κ) (r : ρ) :
    ((t.insert? k r).getD t).get? k' =
      if k' = k then some ((t.get? k).getD r) else t.get? k' := by
  unfold insert?
  split
  · next hfree => rw [Option.getD_some, get?_insert hfree, hfree, Option.getD_none]
  · next htaken =>
      rw [Option.getD_none]
      split
      · next heq =>
          obtain ⟨taken, hrow⟩ := Option.ne_none_iff_exists'.1 htaken
          rw [heq, hrow, Option.getD_some]
      · rfl

/-- Insert a row, or change the one that has its key. -/
theorem get?_insert?_getD_update (t : Table κ ρ) (k k' : κ) (r : ρ) (f : ρ → ρ) :
    ((t.insert? k r).getD (t.update k f)).get? k' =
      if k' = k then some (((t.get? k).map f).getD r) else t.get? k' := by
  unfold insert?
  split
  · next hfree => rw [Option.getD_some, get?_insert hfree, hfree, Option.map_none, Option.getD_none]
  · next htaken =>
      rw [Option.getD_none, get?_update]
      split
      · next heq =>
          obtain ⟨taken, hrow⟩ := Option.ne_none_iff_exists'.1 htaken
          rw [heq, hrow, Option.map_some, Option.getD_some]
      · rfl

/-- The rows under taken keys stay as they are. -/
theorem get?_insertMissing (entries : List (κ × ρ)) (t : Table κ ρ) (k : κ) :
    (t.insertMissing entries).get? k = (t.get? k).or (entries.lookup k) := by
  induction entries generalizing t with
  | nil => exact (Option.or_none).symm
  | cons e rest ih =>
      obtain ⟨key, row⟩ := e
      show (((t.insert? key row).getD t).insertMissing rest).get? k = _
      rw [ih, get?_insert?_getD, Assoc.lookup_cons_eq]
      by_cases h : k = key
      · rw [if_pos h, if_pos h, h]
        cases t.get? key <;> rfl
      · rw [if_neg h, if_neg h]

theorem mem_rows {t : Table κ ρ} {k : κ} {r : ρ} : (k, r) ∈ t.rows ↔ t.get? k = some r := by
  constructor
  · exact Assoc.lookup_of_mem t.nodup
  · exact Assoc.mem_of_lookup

theorem any_iff {p : κ → ρ → Bool} {t : Table κ ρ} :
    t.any p = true ↔ ∃ k r, t.get? k = some r ∧ p k r = true := by
  rw [any, List.any_eq_true]
  constructor
  · rintro ⟨⟨k, r⟩, he, hp⟩
    exact ⟨k, r, mem_rows.1 he, hp⟩
  · rintro ⟨k, r, hk, hp⟩
    exact ⟨(k, r), mem_rows.2 hk, hp⟩

theorem get?_deleteWhere (p : κ → ρ → Bool) (t : Table κ ρ) (k : κ) :
    (t.deleteWhere p).get? k = (t.get? k).filter fun r => !p k r := by
  ext r
  rw [← mem_rows, deleteWhere, List.mem_filter, mem_rows, Option.filter_eq_some_iff]

theorem get?_erase (k k' : κ) (t : Table κ ρ) :
    (t.erase k).get? k' = if k' = k then none else t.get? k' := by
  rw [erase, get?_deleteWhere]
  cases t.get? k' with
  | none => simp
  | some r => by_cases h : k' = k <;> simp [Option.filter, h]

theorem any_eq_false {p : κ → ρ → Bool} {t : Table κ ρ} :
    t.any p = false ↔ ∀ k r, t.get? k = some r → p k r = false := by
  rw [← Bool.not_eq_true, any_iff]
  simp

theorem find?_some {p : κ → ρ → Bool} {t : Table κ ρ} {k : κ} {r : ρ}
    (h : t.find? p = some (k, r)) : t.get? k = some r ∧ p k r = true := by
  have h' : t.rows.find? (fun e => p e.1 e.2) = some (k, r) := h
  have hp := List.find?_some h'
  exact ⟨mem_rows.1 (List.mem_of_find?_eq_some h'), hp⟩

theorem find?_none {p : κ → ρ → Bool} {t : Table κ ρ} :
    t.find? p = none ↔ ∀ k r, t.get? k = some r → p k r = false := by
  rw [find?, List.find?_eq_none]
  constructor
  · intro h k r hk
    have hp := h (k, r) (mem_rows.2 hk)
    simpa using hp
  · rintro h ⟨k, r⟩ he
    simp [h k r (mem_rows.1 he)]

/-- A search for something only one row has. -/
theorem find?_of_unique {p : κ → ρ → Bool} {t : Table κ ρ} {k : κ} {r : ρ}
    (hget : t.get? k = some r) (hp : p k r = true)
    (hunique : ∀ k' r', t.get? k' = some r' → p k' r' = true → k' = k) :
    t.find? p = some (k, r) := by
  cases hfind : t.find? p with
  | none =>
      rw [find?_none.1 hfind k r hget] at hp
      cases hp
  | some e =>
      obtain ⟨hget', hp'⟩ := find?_some hfind
      obtain rfl := hunique e.1 e.2 hget' hp'
      obtain rfl := Option.some.inj (hget.symm.trans hget')
      rfl

/-! ## Sums over the rows -/

section

variable {M : Type w} [AddCommGroup M] {g : κ → ρ → M} {t t' : Table κ ρ} {k : κ} {r : ρ}

theorem sum_insert? (h : t.insert? k r = some t') :
    (t'.rows.map fun e => g e.1 e.2).sum = (t.rows.map fun e => g e.1 e.2).sum + g k r := by
  obtain ⟨hfree, rfl⟩ := insert?_eq_some.1 h
  rw [insert, List.map_append, List.sum_append, List.map_singleton, List.sum_singleton]

theorem sum_modify_of_eq {f : κ → ρ → ρ} (h : ∀ k r, t.get? k = some r → g k (f k r) = g k r) :
    ((t.modify f).rows.map fun e => g e.1 e.2).sum = (t.rows.map fun e => g e.1 e.2).sum := by
  rw [modify, List.map_map]
  exact congrArg List.sum (List.map_congr_left fun e he => h e.1 e.2 (mem_rows.1 he))

/-- Where one row changes, the sum does by the change of that row. -/
theorem sum_modify_at {f : κ → ρ → ρ} (hget : t.get? k = some r)
    (h : ∀ k' r', k' ≠ k → f k' r' = r') :
    ((t.modify f).rows.map fun e => g e.1 e.2).sum =
      (t.rows.map fun e => g e.1 e.2).sum - g k r + g k (f k r) := by
  obtain ⟨before, after, hrows⟩ := List.append_of_mem (mem_rows.2 hget)
  have hnodup := t.nodup
  rw [hrows, List.map_append, List.map_cons, List.nodup_append, List.nodup_cons] at hnodup
  obtain ⟨-, ⟨hafter, -⟩, hbefore⟩ := hnodup
  have hsame : ∀ l : List (κ × ρ), k ∉ l.map Prod.fst →
      (l.map fun e => g e.1 (f e.1 e.2)) = l.map fun e => g e.1 e.2 := by
    intro l hl
    refine List.map_congr_left fun e he => congrArg (g e.1) (h e.1 e.2 ?_)
    rintro rfl
    exact hl (List.mem_map_of_mem he)
  have hnot : k ∉ before.map Prod.fst := fun hk => hbefore k hk k List.mem_cons_self rfl
  rw [modify, List.map_map]
  show (t.rows.map fun e => g e.1 (f e.1 e.2)).sum = _
  rw [hrows, List.map_append, List.map_append, List.map_cons, List.map_cons, hsame before hnot,
    hsame after hafter, List.sum_append, List.sum_append, List.sum_cons, List.sum_cons]
  abel

end

/-! ## Conditions on every row -/

theorem holds_empty {P : κ → ρ → Prop} : (empty : Table κ ρ).Holds P :=
  fun _ _ h => by cases h

theorem holds_modify {P : κ → ρ → Prop} {f : κ → ρ → ρ} {t : Table κ ρ} :
    (t.modify f).Holds P ↔ t.Holds fun k r => P k (f k r) := by
  constructor
  · intro h k r hk
    exact h k (f k r) (by rw [get?_modify, hk]; rfl)
  · intro h k r hk
    rw [get?_modify] at hk
    obtain ⟨r', hr', rfl⟩ := Option.map_eq_some_iff.1 hk
    exact h k r' hr'

theorem holds_updateWhere {P : κ → ρ → Prop} {p : κ → ρ → Bool} {f : ρ → ρ} {t : Table κ ρ} :
    (t.updateWhere p f).Holds P ↔ t.Holds fun k r => P k (if p k r then f r else r) :=
  holds_modify

/-- A row that is inserted unless its key is taken. -/
theorem holds_insert?_getD {P : κ → ρ → Prop} {t : Table κ ρ} {k : κ} {r : ρ} :
    ((t.insert? k r).getD t).Holds P ↔ t.Holds P ∧ (t.get? k = none → P k r) := by
  unfold insert?
  split
  · next hfree =>
      constructor
      · intro h
        have hget := get?_insert (r := r) hfree
        constructor
        · intro k' r' hk'
          refine h k' r' ?_
          rw [Option.getD_some, hget k', if_neg]
          · exact hk'
          · rintro rfl
            rw [hfree] at hk'
            cases hk'
        · intro _
          exact h k r (by rw [Option.getD_some, hget k, if_pos rfl])
      · rintro ⟨h, hr⟩ k' r' hk'
        rw [Option.getD_some, get?_insert hfree] at hk'
        split at hk'
        · next heq =>
            cases hk'
            exact heq ▸ hr hfree
        · exact h k' r' hk'
  · next htaken =>
      rw [Option.getD_none]
      exact ⟨fun h => ⟨h, fun hfree => absurd hfree htaken⟩, And.left⟩

theorem holds_insert? {P : κ → ρ → Prop} {t t' : Table κ ρ} {k : κ} {r : ρ}
    (hinsert : t.insert? k r = some t') (h : t.Holds P) (hr : P k r) : t'.Holds P := by
  obtain ⟨-, hget⟩ := get?_of_insert? hinsert
  intro k' r' hk'
  rw [hget k'] at hk'
  split at hk'
  · next heq =>
      cases hk'
      exact heq ▸ hr
  · exact h k' r' hk'

/-! ## Unique columns -/

variable {β : Type w} {g : ρ → β} {t t' : Table κ ρ}

/-- No two rows have the same value of a column. -/
def Distinct (g : ρ → β) (t : Table κ ρ) : Prop :=
  ∀ ⦃k r k' r'⦄, t.get? k = some r → t.get? k' = some r' → g r = g r' → k = k'

theorem Distinct.modify (h : t.Distinct g) {f : κ → ρ → ρ} (hg : ∀ k r, g (f k r) = g r) :
    (t.modify f).Distinct g := by
  intro k r k' r' hr hr' hsame
  rw [get?_modify, Option.map_eq_some_iff] at hr hr'
  obtain ⟨old, hold, rfl⟩ := hr
  obtain ⟨old', hold', rfl⟩ := hr'
  rw [hg, hg] at hsame
  exact h hold hold' hsame

theorem Distinct.insert? (h : t.Distinct g) {k : κ} {r : ρ} (hinsert : t.insert? k r = some t')
    (hnew : ∀ k' r', t.get? k' = some r' → g r' ≠ g r) : t'.Distinct g := by
  intro a x b y ha hb hsame
  rw [(get?_of_insert? hinsert).2] at ha hb
  split at ha <;> split at hb
  · next hka hkb => rw [hka, hkb]
  · cases ha
    exact absurd hsame.symm (hnew b y hb)
  · cases hb
    exact absurd hsame (hnew a x ha)
  · exact h ha hb hsame

end

end Table
