import PiWorkflows.Lib.StableSort
import PiWorkflows.Proofs.ValueEquality
import PiWorkflows.Workflows.DecisionText

/-!
# The text of a human decision and the order of members

Two values that say the same differ in the order of members alone. Their texts
are equal exactly if names that the collation calls equal stand in the same order
in both (`collatedJson_eq_iff`); array indices do not count, since an object
enumerates them by number whatever the sort did. So a request may be read back
from the store, where names are in another order, under a digest it did not have
(`collatedJson_tied`).

A text determines the sorted data, the data their names and lookups, and the
names are a matter of stable sorting.
-/

namespace PiWorkflows

/-! ## The order of names -/

/-- The order in which an object with these names enumerates them. -/
def nameOrder (names : List CodeUnits) : List CodeUnits :=
  (names.filter fun k => (arrayIndex k).isSome).insertionSort
      (fun k k' => (arrayIndex k).getD 0 ≤ (arrayIndex k').getD 0) ++
    names.filter fun k => (arrayIndex k).isNone

theorem map_fst_enumerated {α : Type} (members : List (CodeUnits × α)) :
    (enumerated members).map Prod.fst = nameOrder (members.map Prod.fst) := by
  have hindices := List.map_insertionSort
    (fun e f : CodeUnits × α => (arrayIndex e.1).getD 0 ≤ (arrayIndex f.1).getD 0)
    (fun k k' => (arrayIndex k).getD 0 ≤ (arrayIndex k').getD 0) Prod.fst
    (members.filter fun e => (arrayIndex e.1).isSome) fun _ _ _ _ => Iff.rfl
  rw [enumerated, nameOrder, List.map_append, hindices, List.filter_map, List.filter_map]
  rfl

theorem map_fst_sorted {α : Type} (c : Collation) (members : List (CodeUnits × α)) :
    (members.insertionSort fun e f => c.Le e.1 f.1).map Prod.fst =
      (members.map Prod.fst).insertionSort c.Le :=
  List.map_insertionSort _ _ _ _ fun _ _ _ _ => Iff.rfl

theorem perm_nameOrder (names : List CodeUnits) : (nameOrder names).Perm names := by
  have hparts : (names.filter fun k => (arrayIndex k).isNone) =
      names.filter fun k => !(arrayIndex k).isSome :=
    List.filter_congr fun k _ => by cases arrayIndex k <;> rfl
  rw [nameOrder, hparts]
  exact ((List.perm_insertionSort _ _).append_right _).trans (List.filter_append_perm _ _)

theorem perm_collate {α : Type} (c : Collation) {members : List (CodeUnits × α)}
    (h : (members.map Prod.fst).Nodup) : (c.collate members).Perm members := by
  have hsorted : ((enumerated members).insertionSort fun e f => c.Le e.1 f.1).Perm members :=
    (List.perm_insertionSort _ _).trans (perm_enumerated members)
  rw [Collation.collate, fromEntries_of_nodup ((hsorted.map Prod.fst).nodup_iff.2 h)]
  exact (perm_enumerated _).trans hsorted

theorem map_fst_collate {α : Type} (c : Collation) {members : List (CodeUnits × α)}
    (h : (members.map Prod.fst).Nodup) :
    (c.collate members).map Prod.fst =
      nameOrder ((nameOrder (members.map Prod.fst)).insertionSort c.Le) := by
  have hsorted : ((enumerated members).insertionSort fun e f => c.Le e.1 f.1).Perm members :=
    (List.perm_insertionSort _ _).trans (perm_enumerated members)
  rw [Collation.collate, fromEntries_of_nodup ((hsorted.map Prod.fst).nodup_iff.2 h),
    map_fst_enumerated, map_fst_sorted, map_fst_enumerated]

/-- Names that the collation calls equal, array indices apart, stand in the same order. -/
def TiesAlike (c : Collation) (names names' : List CodeUnits) : Prop :=
  ∀ k k', c.Le k k' → c.Le k' k → arrayIndex k = none → arrayIndex k' = none →
    ([k, k'].Sublist names ↔ [k, k'].Sublist names')

/-- Array indices are enumerated by number, so their arrangement is forgotten. -/
theorem indices_eq {names names' : List CodeUnits} (hperm : names.Perm names') :
    (names.filter fun k => (arrayIndex k).isSome).insertionSort
        (fun k k' => (arrayIndex k).getD 0 ≤ (arrayIndex k').getD 0) =
      (names'.filter fun k => (arrayIndex k).isSome).insertionSort
        (fun k k' => (arrayIndex k).getD 0 ≤ (arrayIndex k').getD 0) := by
  have hsorted := List.perm_insertionSort
    (fun k k' : CodeUnits => (arrayIndex k).getD 0 ≤ (arrayIndex k').getD 0)
  refine List.Perm.eq_of_pairwise ?_ (List.pairwise_insertionSort _ _)
    (List.pairwise_insertionSort _ _)
    ((hsorted _).trans ((hperm.filter _).trans (hsorted _).symm))
  intro k k' hk hk' hle hle'
  have hindex := (List.mem_filter.1 ((hsorted _).mem_iff.1 hk)).2
  have hindex' := (List.mem_filter.1 ((hsorted _).mem_iff.1 hk')).2
  obtain ⟨n, hn⟩ := Option.isSome_iff_exists.1 hindex
  obtain ⟨n', hn'⟩ := Option.isSome_iff_exists.1 hindex'
  rw [hn, hn'] at hle hle'
  have heq : n = n' := Nat.le_antisymm hle hle'
  rw [arrayIndex_eq hn, arrayIndex_eq hn', heq]

theorem nameOrder_sorted (c : Collation) (names : List CodeUnits) :
    nameOrder ((nameOrder names).insertionSort c.Le) =
      (names.filter fun k => (arrayIndex k).isSome).insertionSort
          (fun k k' => (arrayIndex k).getD 0 ≤ (arrayIndex k').getD 0) ++
        (names.filter fun k => (arrayIndex k).isNone).insertionSort c.Le := by
  have hindices : ∀ k ∈ (names.filter fun k => (arrayIndex k).isSome).insertionSort
      (fun k k' => (arrayIndex k).getD 0 ≤ (arrayIndex k').getD 0),
      (arrayIndex k).isNone = false := fun k hk => by
    have hindex := (List.mem_filter.1 ((List.perm_insertionSort _ _).mem_iff.1 hk)).2
    cases hkey : arrayIndex k <;> simp_all
  have hothers : (nameOrder names).filter (fun k => (arrayIndex k).isNone) =
      names.filter fun k => (arrayIndex k).isNone := by
    rw [nameOrder, List.filter_append, List.filter_filter,
      List.filter_eq_nil_iff.2 fun k hk => by simp [hindices k hk]]
    simp
  have hnames := StableSort.filter_insertionSort c.Le (fun k => (arrayIndex k).isNone)
    (nameOrder names)
  rw [hothers] at hnames
  rw [nameOrder, hnames]
  congr 1
  exact indices_eq ((List.perm_insertionSort _ _).trans (perm_nameOrder names))

theorem nameOrder_sorted_eq_iff (c : Collation) {names names' : List CodeUnits}
    (hnodup : names.Nodup) (hperm : names.Perm names') :
    nameOrder ((nameOrder names).insertionSort c.Le) =
        nameOrder ((nameOrder names').insertionSort c.Le) ↔ TiesAlike c names names' := by
  rw [nameOrder_sorted, nameOrder_sorted, indices_eq hperm, List.append_cancel_left_eq,
    StableSort.insertionSort_eq_iff c.Le (hnodup.filter _) (hperm.filter _)]
  simp only [StableSort.before_filter, Option.isNone_iff_eq_none]
  constructor
  · intro h k k' hle hle' hk hk'
    simpa [hk, hk'] using h k k' hle hle'
  · intro h k k' hle hle'
    constructor
    · rintro ⟨hk, hk', hbefore⟩
      exact ⟨hk, hk', (h k k' hle hle' hk hk').1 hbefore⟩
    · rintro ⟨hk, hk', hbefore⟩
      exact ⟨hk, hk', (h k k' hle hle' hk hk').2 hbefore⟩

/-! ## The sorted data -/

mutual

/-- No object names a member twice. -/
def JsTree.Distinct : JsTree → Prop
  | .arr items => distinctItems items
  | .obj members => (members.map Prod.fst).Nodup ∧ distinctEntries members
  | _ => True

def distinctItems : List JsTree → Prop
  | [] => True
  | x :: xs => x.Distinct ∧ distinctItems xs

def distinctEntries : List (CodeUnits × JsTree) → Prop
  | [] => True
  | (_, x) :: rest => x.Distinct ∧ distinctEntries rest

end

theorem distinctEntries_iff {members : List (CodeUnits × JsTree)} :
    distinctEntries members ↔ ∀ e ∈ members, e.2.Distinct := by
  induction members with
  | nil => simp [distinctEntries]
  | cons e rest ih =>
      obtain ⟨k, x⟩ := e
      rw [distinctEntries, ih, List.forall_mem_cons]

mutual

/-- What `sortJson` makes of JSON data. -/
def sortTree (c : Collation) : JsTree → JsTree
  | .arr items => .arr (sortTrees c items)
  | .obj members => .obj (c.collate (sortEntries c members))
  | .null => .null
  | .bool b => .bool b
  | .num n => .num n
  | .str s => .str s

def sortTrees (c : Collation) : List JsTree → List JsTree
  | [] => []
  | x :: xs => sortTree c x :: sortTrees c xs

def sortEntries (c : Collation) : List (CodeUnits × JsTree) → List (CodeUnits × JsTree)
  | [] => []
  | (k, x) :: rest => (k, sortTree c x) :: sortEntries c rest

end

theorem sortEntries_eq (c : Collation) (members : List (CodeUnits × JsTree)) :
    sortEntries c members = Assoc.mapValues (sortTree c) members := by
  induction members with
  | nil => rw [sortEntries]; rfl
  | cons e rest ih =>
      obtain ⟨k, x⟩ := e
      rw [sortEntries, ih]
      rfl

theorem sortMembers_ofTree (c : Collation) (members : List (CodeUnits × JsTree)) :
    sortMembers c (ofTreeMembers members) =
      Assoc.mapValues (fun t => sortJson c (.ofTree t)) members := by
  induction members with
  | nil => rw [ofTreeMembers, sortMembers]; rfl
  | cons e rest ih =>
      obtain ⟨k, x⟩ := e
      rw [ofTreeMembers, sortMembers, ih]
      rfl

theorem map_fst_mapValues {α β : Type} (f : α → β) (members : List (CodeUnits × α)) :
    (Assoc.mapValues f members).map Prod.fst = members.map Prod.fst := by
  rw [Assoc.mapValues, List.map_map]
  rfl

theorem enumerated_mapValues {α β : Type} (f : α → β) (members : List (CodeUnits × α)) :
    enumerated (Assoc.mapValues f members) = Assoc.mapValues f (enumerated members) := by
  have hindices := List.map_insertionSort
    (fun e f : CodeUnits × α => (arrayIndex e.1).getD 0 ≤ (arrayIndex f.1).getD 0)
    (fun e f : CodeUnits × β => (arrayIndex e.1).getD 0 ≤ (arrayIndex f.1).getD 0)
    (fun e => (e.1, f e.2)) (members.filter fun e => (arrayIndex e.1).isSome)
    fun _ _ _ _ => Iff.rfl
  rw [enumerated, enumerated, Assoc.mapValues, Assoc.mapValues, List.map_append, hindices,
    List.filter_map, List.filter_map]
  rfl

/-- Sorting names does not look at the values. -/
theorem collate_mapValues {α β : Type} (c : Collation) (f : α → β)
    {members : List (CodeUnits × α)} (h : (members.map Prod.fst).Nodup) :
    c.collate (Assoc.mapValues f members) = Assoc.mapValues f (c.collate members) := by
  have hsorted : ((enumerated members).insertionSort fun e f => c.Le e.1 f.1).Perm members :=
    (List.perm_insertionSort _ _).trans (perm_enumerated members)
  have hnodup := (hsorted.map Prod.fst).nodup_iff.2 h
  have hmap := List.map_insertionSort (fun e f : CodeUnits × α => c.Le e.1 f.1)
    (fun e f : CodeUnits × β => c.Le e.1 f.1) (fun e => (e.1, f e.2)) (enumerated members)
    fun _ _ _ _ => Iff.rfl
  rw [Collation.collate, Collation.collate, enumerated_mapValues, Assoc.mapValues, ← hmap,
    fromEntries_of_nodup hnodup]
  have hvalues := enumerated_mapValues f ((enumerated members).insertionSort fun e f => c.Le e.1 f.1)
  rw [fromEntries_of_nodup, ← hvalues]
  · rfl
  · exact (map_fst_mapValues f _).symm ▸ hnodup

theorem serializedMembers_mapValues {α : Type} {value : α → JsValue} {tree : α → JsTree}
    {members : List (CodeUnits × α)}
    (h : ∀ e ∈ members, serialized (value e.2) = .ok (some (tree e.2))) :
    serializedMembers (Assoc.mapValues value members) = .ok (Assoc.mapValues tree members) := by
  induction members with
  | nil => rfl
  | cons e rest ih =>
      have hrest := ih fun f hf => h f (List.mem_cons_of_mem _ hf)
      show serializedMembers ((e.1, value e.2) :: Assoc.mapValues value rest) = _
      rw [serializedMembers, h e List.mem_cons_self, hrest]
      rfl

mutual

theorem serialized_sortJson (c : Collation) (t : JsTree) (h : t.Distinct) :
    serialized (sortJson c (.ofTree t)) = .ok (some (sortTree c t)) := by
  match t with
  | .null | .bool _ | .num _ | .str _ => rfl
  | .arr items =>
      rw [JsTree.Distinct] at h
      rw [JsValue.ofTree, sortJson, serialized, serialized_sortItems c items h, sortTree]
      rfl
  | .obj members =>
      rw [JsTree.Distinct] at h
      have hall := serialized_sortMembers c members h.2
      have hmembers : ∀ e ∈ c.collate members,
          serialized (sortJson c (.ofTree e.2)) = .ok (some (sortTree c e.2)) := fun e he =>
        hall e ((perm_collate c h.1).mem_iff.1 he)
      rw [JsValue.ofTree, sortJson, serialized, sortMembers_ofTree, collate_mapValues c _ h.1,
        serializedMembers_mapValues hmembers, sortTree, sortEntries_eq, collate_mapValues c _ h.1]
      rfl

theorem serialized_sortItems (c : Collation) (items : List JsTree) (h : distinctItems items) :
    serializedItems (sortItems c (ofTreeItems items)) = .ok (sortTrees c items) := by
  match items with
  | [] => rfl
  | x :: xs =>
      rw [distinctItems] at h
      rw [ofTreeItems, sortItems, serializedItems, serialized_sortJson c x h.1,
        serialized_sortItems c xs h.2, sortTrees]
      rfl

theorem serialized_sortMembers (c : Collation) (members : List (CodeUnits × JsTree))
    (h : distinctEntries members) (e : CodeUnits × JsTree) (he : e ∈ members) :
    serialized (sortJson c (.ofTree e.2)) = .ok (some (sortTree c e.2)) := by
  match members with
  | [] => cases he
  | (k, x) :: rest =>
      rw [distinctEntries] at h
      rcases List.mem_cons.1 he with rfl | hmem
      · exact serialized_sortJson c x h.1
      · exact serialized_sortMembers c rest h.2 e hmem

end

theorem nodup_collate {α : Type} (c : Collation) {members : List (CodeUnits × α)}
    (h : (members.map Prod.fst).Nodup) : ((c.collate members).map Prod.fst).Nodup :=
  ((perm_collate c h).map Prod.fst).nodup_iff.2 h

theorem enumerated_collate {α : Type} (c : Collation) {members : List (CodeUnits × α)}
    (h : (members.map Prod.fst).Nodup) : enumerated (c.collate members) = c.collate members := by
  have hsorted : ((enumerated members).insertionSort fun e f => c.Le e.1 f.1).Perm members :=
    (List.perm_insertionSort _ _).trans (perm_enumerated members)
  rw [Collation.collate, fromEntries_of_nodup ((hsorted.map Prod.fst).nodup_iff.2 h)]
  exact enumerated_enumerated _

mutual

theorem proper_sortTree (c : Collation) (t : JsTree) (h : t.Distinct) : (sortTree c t).Proper := by
  match t with
  | .null | .bool _ | .num _ | .str _ => simp [sortTree, JsTree.Proper]
  | .arr items =>
      rw [JsTree.Distinct] at h
      rw [sortTree, JsTree.Proper]
      exact proper_sortTrees c items h
  | .obj members =>
      rw [JsTree.Distinct] at h
      have hnodup : ((sortEntries c members).map Prod.fst).Nodup := by
        rw [sortEntries_eq, map_fst_mapValues]
        exact h.1
      rw [sortTree, JsTree.Proper]
      refine ⟨nodup_collate c hnodup, enumerated_collate c hnodup, properEntries_iff.2 ?_⟩
      intro e he
      have hmem := (perm_collate c hnodup).mem_iff.1 he
      exact properEntries_iff.1 (proper_sortEntries c members h.2) e hmem

theorem proper_sortTrees (c : Collation) (items : List JsTree) (h : distinctItems items) :
    properTrees (sortTrees c items) := by
  match items with
  | [] => simp [sortTrees, properTrees]
  | x :: xs =>
      rw [distinctItems] at h
      rw [sortTrees, properTrees]
      exact ⟨proper_sortTree c x h.1, proper_sortTrees c xs h.2⟩

theorem proper_sortEntries (c : Collation) (members : List (CodeUnits × JsTree))
    (h : distinctEntries members) : properEntries (sortEntries c members) := by
  match members with
  | [] => simp [sortEntries, properEntries]
  | (k, x) :: rest =>
      rw [distinctEntries] at h
      rw [sortEntries, properEntries]
      exact ⟨proper_sortTree c x h.1, proper_sortEntries c rest h.2⟩

end

/-! ## Equal texts -/

mutual

/-- In objects that stand at the same place, tied names stand in the same order. -/
def TreeTies (c : Collation) : JsTree → JsTree → Prop
  | .arr items, .arr items' => itemTies c items items'
  | .obj members, .obj members' =>
      TiesAlike c (members.map Prod.fst) (members'.map Prod.fst) ∧ memberTies c members members'
  | _, _ => True

def itemTies (c : Collation) : List JsTree → List JsTree → Prop
  | x :: xs, y :: ys => TreeTies c x y ∧ itemTies c xs ys
  | _, _ => True

def memberTies (c : Collation) :
    List (CodeUnits × JsTree) → List (CodeUnits × JsTree) → Prop
  | [], _ => True
  | (k, x) :: rest, members' =>
      (∀ y, members'.lookup k = some y → TreeTies c x y) ∧ memberTies c rest members'

end

theorem memberTies_iff {c : Collation} {members members' : List (CodeUnits × JsTree)} :
    memberTies c members members' ↔
      ∀ e ∈ members, ∀ y, members'.lookup e.1 = some y → TreeTies c e.2 y := by
  induction members with
  | nil => simp [memberTies]
  | cons e rest ih =>
      obtain ⟨k, x⟩ := e
      rw [memberTies, ih, List.forall_mem_cons]

/-- Members with distinct names are their names and their lookups. -/
theorem members_ext {α : Type} {l l' : List (CodeUnits × α)} (hnodup : (l.map Prod.fst).Nodup)
    (hnames : l.map Prod.fst = l'.map Prod.fst) (hlookup : ∀ k, l.lookup k = l'.lookup k) :
    l = l' := by
  have hread : ∀ m : List (CodeUnits × α), (m.map Prod.fst).Nodup →
      m.map some = (m.map Prod.fst).map fun k => (m.lookup k).map fun x => (k, x) := by
    intro m hm
    rw [List.map_map]
    refine List.map_congr_left fun e he => ?_
    rw [Function.comp_apply, Assoc.lookup_of_mem hm he]
    rfl
  have hsome : l.map some = l'.map some := by
    rw [hread l hnodup, hread l' (hnames ▸ hnodup), hnames]
    exact List.map_congr_left fun k _ => by rw [hlookup]
  exact List.map_injective_iff.2 (Option.some_injective _) hsome

theorem mem_names_lookup {α : Type} {l : List (CodeUnits × α)} {k : CodeUnits} :
    k ∈ l.map Prod.fst ↔ ∃ x, l.lookup k = some x := by
  rw [List.mem_map]
  constructor
  · rintro ⟨e, he, rfl⟩
    cases hk : l.lookup e.1 with
    | some x => exact ⟨x, rfl⟩
    | none =>
        rw [List.lookup_eq_none_iff] at hk
        exact absurd (hk e he) (by simp)
  · rintro ⟨x, hx⟩
    exact ⟨(k, x), Assoc.mem_of_lookup hx, rfl⟩

/-- What two objects that say the same say under a name. -/
theorem lookup_of_meaning {members members' : List (CodeUnits × JsTree)}
    (h : (JsValue.ofTree (.obj members)).meaning = (JsValue.ofTree (.obj members')).meaning)
    (k : CodeUnits) :
    (members.lookup k).map (fun t => (JsValue.ofTree t).meaning) =
      (members'.lookup k).map fun t => (JsValue.ofTree t).meaning := by
  rw [JsValue.ofTree, JsValue.ofTree, JsValue.meaning, JsValue.meaning, Meaning.obj.injEq] at h
  have hk := congrFun h k
  rwa [memberMeaning_ofTree, memberMeaning_ofTree] at hk

theorem perm_names {members members' : List (CodeUnits × JsTree)}
    (hnodup : (members.map Prod.fst).Nodup) (hnodup' : (members'.map Prod.fst).Nodup)
    (hlookup : ∀ k, (members.lookup k).map (fun t => (JsValue.ofTree t).meaning) =
      (members'.lookup k).map fun t => (JsValue.ofTree t).meaning) :
    (members.map Prod.fst).Perm (members'.map Prod.fst) := by
  refine (List.perm_ext_iff_of_nodup hnodup hnodup').2 fun k => ?_
  have hk := hlookup k
  rw [mem_names_lookup, mem_names_lookup]
  cases hx : members.lookup k <;> cases hy : members'.lookup k <;> simp_all

theorem lookup_collate_sorted (c : Collation) {members : List (CodeUnits × JsTree)}
    (h : (members.map Prod.fst).Nodup) (k : CodeUnits) :
    (c.collate (sortEntries c members)).lookup k = (members.lookup k).map (sortTree c) := by
  have hnodup : ((sortEntries c members).map Prod.fst).Nodup := by
    rw [sortEntries_eq, map_fst_mapValues]
    exact h
  rw [← lookup_perm (perm_collate c hnodup).symm hnodup, sortEntries_eq]
  exact Assoc.lookup_map (fun _ => sortTree c) k members

mutual

/-- Data that say the same are sorted alike exactly if their ties stand alike. -/
theorem sortTree_eq_iff (c : Collation) (a b : JsTree) (ha : a.Distinct) (hb : b.Distinct)
    (hmeaning : (JsValue.ofTree a).meaning = (JsValue.ofTree b).meaning) :
    sortTree c a = sortTree c b ↔ TreeTies c a b := by
  match a, b with
  | .arr items, .arr items' =>
      rw [JsTree.Distinct] at ha hb
      rw [JsValue.ofTree, JsValue.ofTree, JsValue.meaning, JsValue.meaning,
        Meaning.arr.injEq] at hmeaning
      rw [sortTree, sortTree, JsTree.arr.injEq, TreeTies]
      exact sortTrees_eq_iff c items items' ha hb hmeaning
  | .obj members, .obj members' =>
      rw [JsTree.Distinct] at ha hb
      have hlookup := lookup_of_meaning hmeaning
      have hperm := perm_names ha.1 hb.1 hlookup
      have hsorted : ((sortEntries c members).map Prod.fst).Nodup := by
        rw [sortEntries_eq, map_fst_mapValues]
        exact ha.1
      have hsorted' : ((sortEntries c members').map Prod.fst).Nodup := by
        rw [sortEntries_eq, map_fst_mapValues]
        exact hb.1
      have hnames := nameOrder_sorted_eq_iff c ha.1 hperm
      have hfst := map_fst_collate c hsorted
      have hfst' := map_fst_collate c hsorted'
      rw [sortEntries_eq, map_fst_mapValues, ← sortEntries_eq] at hfst hfst'
      rw [sortTree, sortTree, JsTree.obj.injEq, TreeTies, memberTies_iff, ← hnames, ← hfst, ← hfst']
      constructor
      · intro heq
        refine ⟨by rw [heq], fun e he y hy => ?_⟩
        have hx := Assoc.lookup_of_mem ha.1 he
        have hsame := congrArg (List.lookup e.1) heq
        rw [lookup_collate_sorted c ha.1, lookup_collate_sorted c hb.1, hx, hy, Option.map_some,
          Option.map_some, Option.some.injEq] at hsame
        have hsays := hlookup e.1
        rw [hx, hy, Option.map_some, Option.map_some, Option.some.injEq] at hsays
        exact (sortMember_eq_iff c members ha.2 e he y
          (distinctEntries_iff.1 hb.2 _ (Assoc.mem_of_lookup hy)) hsays).1 hsame
      · rintro ⟨hkeys, hmembers⟩
        refine members_ext (nodup_collate c hsorted) hkeys fun k => ?_
        have hsays := hlookup k
        rw [lookup_collate_sorted c ha.1, lookup_collate_sorted c hb.1]
        cases hx : members.lookup k with
        | none =>
            cases hy : members'.lookup k with
            | none => rfl
            | some y => simp [hx, hy] at hsays
        | some x =>
            cases hy : members'.lookup k with
            | none => simp [hx, hy] at hsays
            | some y =>
                have he := Assoc.mem_of_lookup hx
                rw [hx, hy, Option.map_some, Option.map_some, Option.some.injEq] at hsays
                rw [Option.map_some, Option.map_some, (sortMember_eq_iff c members ha.2 (k, x) he y
                  (distinctEntries_iff.1 hb.2 _ (Assoc.mem_of_lookup hy)) hsays).2
                  (hmembers (k, x) he y hy)]
  | .null, .null => exact iff_of_true rfl trivial
  | .bool _, .bool _ | .num _, .num _ | .str _, .str _ =>
      refine iff_of_true ?_ trivial
      simpa [JsValue.ofTree, JsValue.meaning, sortTree] using hmeaning
  | .null, .bool _ | .null, .num _ | .null, .str _ | .null, .arr _ | .null, .obj _
  | .bool _, .null | .bool _, .num _ | .bool _, .str _ | .bool _, .arr _ | .bool _, .obj _
  | .num _, .null | .num _, .bool _ | .num _, .str _ | .num _, .arr _ | .num _, .obj _
  | .str _, .null | .str _, .bool _ | .str _, .num _ | .str _, .arr _ | .str _, .obj _
  | .arr _, .null | .arr _, .bool _ | .arr _, .num _ | .arr _, .str _ | .arr _, .obj _
  | .obj _, .null | .obj _, .bool _ | .obj _, .num _ | .obj _, .str _ | .obj _, .arr _ =>
      simp [JsValue.ofTree, JsValue.meaning] at hmeaning

theorem sortTrees_eq_iff (c : Collation) (items items' : List JsTree) (h : distinctItems items)
    (h' : distinctItems items')
    (hmeaning : itemsMeaning (ofTreeItems items) = itemsMeaning (ofTreeItems items')) :
    sortTrees c items = sortTrees c items' ↔ itemTies c items items' := by
  match items, items' with
  | [], [] => simp [itemTies]
  | [], y :: ys | x :: xs, [] => simp [ofTreeItems, itemsMeaning] at hmeaning
  | x :: xs, y :: ys =>
      rw [distinctItems] at h h'
      rw [ofTreeItems, ofTreeItems, itemsMeaning, itemsMeaning, List.cons.injEq] at hmeaning
      rw [sortTrees, sortTrees, List.cons.injEq, itemTies,
        sortTree_eq_iff c x y h.1 h'.1 hmeaning.1, sortTrees_eq_iff c xs ys h.2 h'.2 hmeaning.2]

theorem sortMember_eq_iff (c : Collation) (members : List (CodeUnits × JsTree))
    (h : distinctEntries members) (e : CodeUnits × JsTree) (he : e ∈ members) (y : JsTree)
    (hy : y.Distinct) (hmeaning : (JsValue.ofTree e.2).meaning = (JsValue.ofTree y).meaning) :
    sortTree c e.2 = sortTree c y ↔ TreeTies c e.2 y := by
  match members with
  | [] => cases he
  | (k, x) :: rest =>
      rw [distinctEntries] at h
      rcases List.mem_cons.1 he with rfl | hmem
      · exact sortTree_eq_iff c x y h.1 hy hmeaning
      · exact sortMember_eq_iff c rest h.2 e hmem y hy hmeaning

end

theorem collatedJson_ofTree (c : Collation) {t : JsTree} (h : t.Distinct) :
    collatedJson c (.ofTree t) = .ok (some (sortTree c t).text) := by
  rw [collatedJson, JsValue.stringify, serialized_sortJson c t h]
  rfl

/-- Two values that differ in the order of members only have one text exactly if, in every
object, names that the collation calls equal stand in the same order. -/
theorem collatedJson_eq_iff (c : Collation) (a b : JsTree) (ha : a.Distinct) (hb : b.Distinct)
    (hmeaning : (JsValue.ofTree a).meaning = (JsValue.ofTree b).meaning) :
    collatedJson c (.ofTree a) = collatedJson c (.ofTree b) ↔ TreeTies c a b := by
  rw [collatedJson_ofTree c ha, collatedJson_ofTree c hb, Except.ok.injEq, Option.some.injEq,
    ← sortTree_eq_iff c a b ha hb hmeaning]
  exact ⟨text_inj (proper_sortTree c a ha) (proper_sortTree c b hb), congrArg JsTree.text⟩

/-! ## Two spellings of one letter -/

/-- The order of code units after "e" with a combining accent was composed to one unit. -/
def composedRank (s : CodeUnits) : List Nat :=
  if s = [0x65, 0x301] then [0xE9] else s.map UInt16.toNat

def composing : Collation where
  before l r := composedRank l ≤ composedRank r
  total l r := by simpa using le_total (composedRank l) (composedRank r)
  trans l m r h h' := by simpa using le_trans (of_decide_eq_true h) (of_decide_eq_true h')

/-- An object with the two spellings as names. -/
def spelledTwice : JsTree :=
  .obj [([0xE9], .num (.ofNat 1)), ([0x65, 0x301], .num (.ofNat 2))]

def spelledTwiceReordered : JsTree :=
  .obj [([0x65, 0x301], .num (.ofNat 2)), ([0xE9], .num (.ofNat 1))]

theorem spelledTwice_meaning : (JsValue.ofTree spelledTwice).meaning =
    (JsValue.ofTree spelledTwiceReordered).meaning := by
  rw [spelledTwice, spelledTwiceReordered, JsValue.ofTree, JsValue.ofTree, JsValue.meaning,
    JsValue.meaning, Meaning.obj.injEq]
  funext name
  have hne : ([0xE9] : CodeUnits) ≠ [0x65, 0x301] := by decide
  simp only [ofTreeMembers, JsValue.ofTree, memberMeaning]
  split
  · next h => rw [if_neg (by rw [h]; exact hne)]
  · rfl

theorem spelledTwice_distinct : spelledTwice.Distinct := by
  simp [spelledTwice, JsTree.Distinct, distinctEntries]

theorem spelledTwiceReordered_distinct : spelledTwiceReordered.Distinct := by
  simp [spelledTwiceReordered, JsTree.Distinct, distinctEntries]

/-- The two spellings keep the order they had, and the texts differ. -/
theorem collatedJson_tied :
    ¬∀ (c : Collation) (a b : JsTree), a.Distinct → b.Distinct →
      (JsValue.ofTree a).meaning = (JsValue.ofTree b).meaning →
        collatedJson c (.ofTree a) = collatedJson c (.ofTree b) := by
  intro h
  have htexts := h composing spelledTwice spelledTwiceReordered spelledTwice_distinct
    spelledTwiceReordered_distinct spelledTwice_meaning
  exact absurd htexts (by decide +kernel)

theorem collatedJson_untied :
    collatedJson composing (.ofTree (.obj [([0x62], .null), ([0x61], .null)])) =
        collatedJson composing (.ofTree (.obj [([0x61], .null), ([0x62], .null)])) ↔
      TreeTies composing (.obj [([0x62], .null), ([0x61], .null)])
        (.obj [([0x61], .null), ([0x62], .null)]) := by
  refine collatedJson_eq_iff composing _ _ ?_ ?_ ?_
  · simp [JsTree.Distinct, distinctEntries]
  · simp [JsTree.Distinct, distinctEntries]
  · rw [JsValue.ofTree, JsValue.ofTree, JsValue.meaning, JsValue.meaning, Meaning.obj.injEq]
    funext name
    have hne : ([0x62] : CodeUnits) ≠ [0x61] := by decide
    simp only [ofTreeMembers, JsValue.ofTree, memberMeaning]
    split
    · next h => rw [if_neg (by rw [h]; exact hne)]
    · rfl

end PiWorkflows
