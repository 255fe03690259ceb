import PiWorkflows.Lib.Fallible
import PiWorkflows.Proofs.ValueText

/-!
# Canonical text and equality of JSON values

What a JSON value says is stated without any order: an object is the map from
its names to what its members say, a member that is `undefined` is none, and
negative zero says zero (`JsValue.meaning`). Two values have the same canonical
text exactly if they say the same (`canonicalJson_agrees`).

The text determines the data it prints, so what is left to show is that
`normalizeJson` keeps the meaning (`normalizeJson_spec`) and that canonical data
are determined by theirs (`canonical_ext`). Both inductions are on the value,
and an object is always read through its lookups.
-/

namespace PiWorkflows

/-- What JSON can say. `absent` is said by whatever JSON has no value for. -/
inductive Meaning where
  | absent
  | null
  | bool (b : Bool)
  | num (n : JsNumber)
  | str (s : CodeUnits)
  | arr (items : List Meaning)
  | obj (members : CodeUnits → Option Meaning)

mutual

def JsValue.meaning : JsValue → Meaning
  | .null => .null
  | .bool b => .bool b
  | .num n => .num n
  | .negativeZero => .num (.ofNat 0)
  | .str s => .str s
  | .arr items => .arr (itemsMeaning items)
  | .obj _ members => .obj fun name => memberMeaning name members
  | .undefined | .notFinite | .bigint | .function | .symbol => .absent

def itemsMeaning : List JsValue → List Meaning
  | [] => []
  | x :: xs => x.meaning :: itemsMeaning xs

/-- What the member with the name says, if there is one. -/
def memberMeaning (name : CodeUnits) : List (CodeUnits × JsValue) → Option Meaning
  | [] => none
  | (k, x) :: rest =>
      if name = k then
        match x with
        | .undefined => none
        | x => some x.meaning
      else memberMeaning name rest

end

/-- What a member says that stands under its name. -/
def JsValue.said : JsValue → Option Meaning
  | .undefined => none
  | x => some x.meaning

mutual

/-- A value that JSON has: finite numbers, plain objects, and `undefined` only as a member. -/
def JsValue.isJson : JsValue → Bool
  | .null | .bool _ | .num _ | .negativeZero | .str _ => true
  | .undefined | .notFinite | .bigint | .function | .symbol => false
  | .arr items => itemsJson items
  | .obj plain members => plain && membersJson members

def itemsJson : List JsValue → Bool
  | [] => true
  | x :: xs => x.isJson && itemsJson xs

def membersJson : List (CodeUnits × JsValue) → Bool
  | [] => true
  | (_, x) :: rest =>
      (match x with
        | .undefined => true
        | x => x.isJson) && membersJson rest

end

/-! ## Members -/

theorem unitRank_injective : Function.Injective unitRank :=
  List.map_injective_iff.2 fun _ _ h => UInt16.toNat_inj.1 h

theorem Assoc.nodup_of_sorted {α : Type} {l : List (CodeUnits × α)} (h : Assoc.Sorted unitRank l) :
    (l.map Prod.fst).Nodup := by
  rw [List.Nodup, List.pairwise_map]
  exact h.imp fun hlt heq => absurd hlt (by rw [heq]; exact lt_irrefl _)

/-- Members with distinct names answer lookups in any order alike. -/
theorem lookup_perm {α : Type} {l l' : List (CodeUnits × α)} (hperm : l.Perm l')
    (hnodup : (l.map Prod.fst).Nodup) (k : CodeUnits) : l.lookup k = l'.lookup k := by
  have hnodup' : (l'.map Prod.fst).Nodup := (hperm.map Prod.fst).nodup_iff.1 hnodup
  cases hk : l.lookup k with
  | some x => exact (Assoc.lookup_of_mem hnodup' (hperm.mem_iff.1 (Assoc.mem_of_lookup hk))).symm
  | none =>
      cases hk' : l'.lookup k with
      | none => rfl
      | some x =>
          rw [Assoc.lookup_of_mem hnodup (hperm.mem_iff.2 (Assoc.mem_of_lookup hk'))] at hk
          cases hk

theorem perm_fromEntries {α : Type} {l : List (CodeUnits × α)} (h : Assoc.Sorted unitRank l) :
    (fromEntries l).Perm l := by
  rw [fromEntries_of_nodup (Assoc.nodup_of_sorted h)]
  exact perm_enumerated l

theorem lookup_fromEntries {α : Type} {l : List (CodeUnits × α)} (h : Assoc.Sorted unitRank l)
    (k : CodeUnits) : (fromEntries l).lookup k = l.lookup k :=
  (lookup_perm (perm_fromEntries h).symm (Assoc.nodup_of_sorted h) k).symm

/-- What a member is normalised to. -/
def normalizedMember : JsValue → Except String (Option JsTree)
  | .undefined => .ok none
  | x => x.normalizeJson.map some

theorem normalizedMembers_cons (k : CodeUnits) (x : JsValue) (rest : List (CodeUnits × JsValue)) :
    normalizedMembers ((k, x) :: rest) =
      Assoc.insertMember unitRank k (normalizedMember x) (normalizedMembers rest) := by
  cases x <;> simp only [normalizedMembers, normalizedMember]

theorem sorted_normalizedMembers (members : List (CodeUnits × JsValue)) :
    Assoc.Sorted unitRank (normalizedMembers members) := by
  induction members with
  | nil => rw [normalizedMembers]; exact List.Pairwise.nil
  | cons e rest ih =>
      obtain ⟨k, x⟩ := e
      rw [normalizedMembers_cons]
      exact Assoc.sorted_insertMember unitRank_injective k _ ih

theorem lookup_normalizedMembers (k : CodeUnits) (members : List (CodeUnits × JsValue)) :
    (normalizedMembers members).lookup k = (members.lookup k).map normalizedMember := by
  induction members with
  | nil => simp [normalizedMembers]
  | cons e rest ih =>
      obtain ⟨k', x⟩ := e
      rw [normalizedMembers_cons, Assoc.lookup_insertMember (sorted_normalizedMembers rest),
        Assoc.lookup_cons_eq, ih]
      split <;> rfl

theorem collect_keys {l : List (CodeUnits × Except String (Option JsTree))}
    {r : List (CodeUnits × JsTree)} (h : collect l = .ok r) :
    (r.map Prod.fst).Sublist (l.map Prod.fst) := by
  induction l generalizing r with
  | nil => cases h; exact .slnil
  | cons e rest ih =>
      obtain ⟨k, x⟩ := e
      rw [collect] at h
      simp only [Fallible.bind_ok] at h
      obtain ⟨y, -, ys, hys, hr⟩ := h
      cases hr
      cases y with
      | none => exact (ih hys).cons k
      | some y => exact (ih hys).cons_cons k

theorem sorted_collect {l : List (CodeUnits × Except String (Option JsTree))}
    {r : List (CodeUnits × JsTree)} (hl : Assoc.Sorted unitRank l) (h : collect l = .ok r) :
    Assoc.Sorted unitRank r := by
  have hkeys : (l.map Prod.fst).Pairwise fun k k' => unitRank k < unitRank k' :=
    List.pairwise_map.2 hl
  have hkept := hkeys.sublist (collect_keys h)
  rwa [List.pairwise_map] at hkept

/-- What is collected under a name is what was computed for it. -/
theorem lookup_collect {l : List (CodeUnits × Except String (Option JsTree))}
    {r : List (CodeUnits × JsTree)} (hl : Assoc.Sorted unitRank l) (h : collect l = .ok r)
    (k : CodeUnits) :
    (l.lookup k = none ∧ r.lookup k = none) ∨ l.lookup k = some (.ok (r.lookup k)) := by
  induction l generalizing r with
  | nil => cases h; exact .inl ⟨rfl, rfl⟩
  | cons e rest ih =>
      obtain ⟨k', x⟩ := e
      rw [collect] at h
      simp only [Fallible.bind_ok] at h
      obtain ⟨y, rfl, ys, hys, hr⟩ := h
      cases hr
      have hrest := ih (List.pairwise_cons.1 hl).2 hys
      rw [Assoc.lookup_cons_eq]
      by_cases hk : k = k'
      · subst hk
        refine .inr ?_
        rw [if_pos rfl]
        cases y with
        | some y => simp
        | none =>
            rcases hrest with ⟨-, hnone⟩ | hsome
            · simpa using hnone.symm
            · rw [Assoc.lookup_none_of_sorted hl] at hsome
              cases hsome
      · rw [if_neg hk]
        cases y with
        | none => exact hrest
        | some y =>
            show _ ∨ _
            simp only [Option.map_some, Option.toList_some, List.singleton_append,
              Assoc.lookup_cons_eq, if_neg hk]
            exact hrest

/-! ## What data and their members say -/

theorem memberMeaning_eq (name : CodeUnits) (members : List (CodeUnits × JsValue)) :
    memberMeaning name members = (members.lookup name).bind JsValue.said := by
  induction members with
  | nil => rw [memberMeaning]; rfl
  | cons e rest ih =>
      obtain ⟨k, x⟩ := e
      rw [Assoc.lookup_cons_eq]
      by_cases hname : name = k
      · cases x <;> simp [memberMeaning, JsValue.said, hname]
      · cases x <;> simp only [memberMeaning, if_neg hname, ih]

theorem lookup_ofTreeMembers (name : CodeUnits) (members : List (CodeUnits × JsTree)) :
    (ofTreeMembers members).lookup name = (members.lookup name).map JsValue.ofTree := by
  induction members with
  | nil => rw [ofTreeMembers]; rfl
  | cons e rest ih =>
      obtain ⟨k, x⟩ := e
      rw [ofTreeMembers, Assoc.lookup_cons_eq, Assoc.lookup_cons_eq, ih]
      split <;> rfl

theorem memberMeaning_ofTree (name : CodeUnits) (members : List (CodeUnits × JsTree)) :
    memberMeaning name (ofTreeMembers members) =
      (members.lookup name).map fun t => (JsValue.ofTree t).meaning := by
  rw [memberMeaning_eq, lookup_ofTreeMembers]
  cases members.lookup name with
  | none => rfl
  | some t => cases t <;> rw [Option.map_some, Option.bind_some, JsValue.ofTree] <;> rfl

/-! ## Canonical data -/

mutual

/-- Data whose objects were made from sorted members. -/
def JsTree.Canonical : JsTree → Prop
  | .arr items => canonicalItems items
  | .obj members =>
      (∃ l, Assoc.Sorted unitRank l ∧ members = fromEntries l) ∧ canonicalEntries members
  | _ => True

def canonicalItems : List JsTree → Prop
  | [] => True
  | x :: xs => x.Canonical ∧ canonicalItems xs

def canonicalEntries : List (CodeUnits × JsTree) → Prop
  | [] => True
  | (_, x) :: rest => x.Canonical ∧ canonicalEntries rest

end

theorem canonicalEntries_iff {members : List (CodeUnits × JsTree)} :
    canonicalEntries members ↔ ∀ e ∈ members, e.2.Canonical := by
  induction members with
  | nil => simp [canonicalEntries]
  | cons e rest ih =>
      obtain ⟨k, x⟩ := e
      rw [canonicalEntries, ih, List.forall_mem_cons]

mutual

theorem proper_of_canonical (t : JsTree) (h : t.Canonical) : t.Proper := by
  match t with
  | .null | .bool _ | .num _ | .str _ => simp [JsTree.Proper]
  | .arr items =>
      rw [JsTree.Canonical] at h
      rw [JsTree.Proper]
      exact properTrees_of_canonical items h
  | .obj members =>
      rw [JsTree.Canonical] at h
      obtain ⟨⟨l, hl, hmembers⟩, hentries⟩ := h
      have hnodup := Assoc.nodup_of_sorted hl
      have hperm := perm_fromEntries hl
      rw [JsTree.Proper]
      refine ⟨?_, ?_, properEntries_of_canonical members hentries⟩
      · rw [hmembers]
        exact (hperm.map Prod.fst).nodup_iff.2 hnodup
      · rw [hmembers, fromEntries_of_nodup hnodup]
        exact enumerated_enumerated l

theorem properTrees_of_canonical (items : List JsTree) (h : canonicalItems items) :
    properTrees items := by
  match items with
  | [] => simp [properTrees]
  | x :: xs =>
      rw [canonicalItems] at h
      rw [properTrees]
      exact ⟨proper_of_canonical x h.1, properTrees_of_canonical xs h.2⟩

theorem properEntries_of_canonical (members : List (CodeUnits × JsTree))
    (h : canonicalEntries members) : properEntries members := by
  match members with
  | [] => simp [properEntries]
  | (k, x) :: rest =>
      rw [canonicalEntries] at h
      rw [properEntries]
      exact ⟨proper_of_canonical x h.1, properEntries_of_canonical rest h.2⟩

end

mutual

/-- Canonical data are determined by what they say. -/
theorem canonical_ext (t t' : JsTree) (h : t.Canonical) (h' : t'.Canonical)
    (hmeaning : (JsValue.ofTree t).meaning = (JsValue.ofTree t').meaning) : t = t' := by
  match t, t' with
  | .arr items, .arr items' =>
      rw [JsTree.Canonical] at h h'
      rw [JsValue.ofTree, JsValue.ofTree, JsValue.meaning, JsValue.meaning,
        Meaning.arr.injEq] at hmeaning
      rw [canonicalItems_ext items items' h h' hmeaning]
  | .obj members, .obj members' =>
      rw [JsTree.Canonical] at h h'
      obtain ⟨⟨l, hl, hmembers⟩, hentries⟩ := h
      obtain ⟨⟨l', hl', hmembers'⟩, hentries'⟩ := h'
      rw [JsValue.ofTree, JsValue.ofTree, JsValue.meaning, JsValue.meaning,
        Meaning.obj.injEq] at hmeaning
      have hlookup : ∀ k, members.lookup k = members'.lookup k := by
        intro k
        have hk := congrFun hmeaning k
        rw [memberMeaning_ofTree, memberMeaning_ofTree] at hk
        cases hx : members.lookup k with
        | none =>
            cases hy : members'.lookup k with
            | none => rfl
            | some y => simp [hx, hy] at hk
        | some x =>
            cases hy : members'.lookup k with
            | none => simp [hx, hy] at hk
            | some y =>
                rw [hx, hy, Option.map_some, Option.map_some, Option.some.injEq] at hk
                have hcanonical := canonicalEntries_iff.1 hentries' _ (Assoc.mem_of_lookup hy)
                rw [canonicalMember_ext members hentries hx y hcanonical hk]
      have hll : l = l' := by
        refine Assoc.sorted_ext hl hl' fun k => ?_
        rw [← lookup_fromEntries hl, ← lookup_fromEntries hl', ← hmembers, ← hmembers', hlookup]
      rw [hmembers, hmembers', hll]
  | .null, .null => rfl
  | .bool _, .bool _ | .num _, .num _ | .str _, .str _ =>
      simpa [JsValue.ofTree, JsValue.meaning] using hmeaning
  | .null, .bool _ | .null, .num _ | .null, .str _ | .null, .arr _ | .null, .obj _
  | .bool _, .null | .bool _, .num _ | .bool _, .str _ | .bool _, .arr _ | .bool _, .obj _
  | .num _, .null | .num _, .bool _ | .num _, .str _ | .num _, .arr _ | .num _, .obj _
  | .str _, .null | .str _, .bool _ | .str _, .num _ | .str _, .arr _ | .str _, .obj _
  | .arr _, .null | .arr _, .bool _ | .arr _, .num _ | .arr _, .str _ | .arr _, .obj _
  | .obj _, .null | .obj _, .bool _ | .obj _, .num _ | .obj _, .str _ | .obj _, .arr _ =>
      simp [JsValue.ofTree, JsValue.meaning] at hmeaning

theorem canonicalItems_ext (items items' : List JsTree) (h : canonicalItems items)
    (h' : canonicalItems items')
    (hmeaning : itemsMeaning (ofTreeItems items) = itemsMeaning (ofTreeItems items')) :
    items = items' := by
  match items, items' with
  | [], [] => rfl
  | [], y :: ys | x :: xs, [] => simp [ofTreeItems, itemsMeaning] at hmeaning
  | x :: xs, y :: ys =>
      rw [canonicalItems] at h h'
      rw [ofTreeItems, ofTreeItems, itemsMeaning, itemsMeaning, List.cons.injEq] at hmeaning
      rw [canonical_ext x y h.1 h'.1 hmeaning.1, canonicalItems_ext xs ys h.2 h'.2 hmeaning.2]

theorem canonicalMember_ext (members : List (CodeUnits × JsTree)) (h : canonicalEntries members)
    {k : CodeUnits} {x : JsTree} (hx : members.lookup k = some x) (y : JsTree)
    (hy : y.Canonical) (hmeaning : (JsValue.ofTree x).meaning = (JsValue.ofTree y).meaning) :
    x = y := by
  match members with
  | [] => cases hx
  | (k', z) :: rest =>
      rw [canonicalEntries] at h
      rw [Assoc.lookup_cons_eq] at hx
      split at hx
      · cases hx
        exact canonical_ext x y h.1 hy hmeaning
      · exact canonicalMember_ext rest h.2 hx y hy hmeaning

end

/-! ## `normalizeJson` -/

theorem normalizedMember_cases {x : JsValue} {r : Option JsTree}
    (h : normalizedMember x = .ok r) :
    (x = .undefined ∧ r = none) ∨
      ∃ t, x.normalizeJson = .ok t ∧ x.said = some x.meaning ∧ r = some t := by
  cases hx : x with
  | undefined =>
      rw [hx] at h
      cases h
      exact .inl ⟨rfl, rfl⟩
  | _ =>
      have hdefined : normalizedMember x = x.normalizeJson.map some := by
        rw [hx]
        simp only [normalizedMember]
      rw [hdefined, Fallible.map_ok] at h
      obtain ⟨t, ht, rfl⟩ := h
      exact .inr ⟨t, hx ▸ ht, rfl, rfl⟩

mutual

/-- Normalising keeps what a value says and gives canonical data. -/
theorem normalizeJson_spec (v : JsValue) {t : JsTree} (h : v.normalizeJson = .ok t) :
    (JsValue.ofTree t).meaning = v.meaning ∧ t.Canonical := by
  match v with
  | .null | .bool _ | .num _ | .negativeZero | .str _ =>
      rw [JsValue.normalizeJson] at h
      cases h
      simp [JsValue.ofTree, JsValue.meaning, JsTree.Canonical]
  | .undefined | .notFinite | .bigint | .function | .symbol =>
      rw [JsValue.normalizeJson] at h
      cases h
  | .arr items =>
      rw [JsValue.normalizeJson, Fallible.map_ok] at h
      obtain ⟨trees, htrees, rfl⟩ := h
      obtain ⟨hmeaning, hcanonical⟩ := normalizedItems_spec items htrees
      rw [JsValue.ofTree, JsValue.meaning, JsValue.meaning, JsTree.Canonical, hmeaning]
      exact ⟨rfl, hcanonical⟩
  | .obj plain members =>
      rw [JsValue.normalizeJson] at h
      split at h
      · rw [Fallible.map_ok] at h
        obtain ⟨l, hcollect, rfl⟩ := h
        have hl := sorted_normalizedMembers members
        have hsorted := sorted_collect hl hcollect
        have hlookup := lookup_collect hl hcollect
        rw [JsValue.ofTree, JsValue.meaning, JsValue.meaning, JsTree.Canonical, Meaning.obj.injEq,
          canonicalEntries_iff]
        constructor
        · funext k
          rw [memberMeaning_ofTree, lookup_fromEntries hsorted, memberMeaning_eq]
          rcases hlookup k with ⟨hnone, hnone'⟩ | hsome
          · rw [lookup_normalizedMembers, Option.map_eq_none_iff] at hnone
            rw [hnone, hnone']
            rfl
          · rw [lookup_normalizedMembers, Option.map_eq_some_iff] at hsome
            obtain ⟨x, hx, hok⟩ := hsome
            rw [hx, Option.bind_some]
            exact (normalizedMember_spec members hx hok).1
        · refine ⟨⟨l, hsorted, rfl⟩, fun e he => ?_⟩
          have hmem := Assoc.lookup_of_mem (Assoc.nodup_of_sorted hsorted)
            ((perm_fromEntries hsorted).mem_iff.1 he)
          rcases hlookup e.1 with ⟨-, hnone⟩ | hsome
          · rw [hmem] at hnone
            cases hnone
          · rw [lookup_normalizedMembers, Option.map_eq_some_iff] at hsome
            obtain ⟨x, hx, hok⟩ := hsome
            exact (normalizedMember_spec members hx hok).2 e.2 hmem
      · cases h

theorem normalizedItems_spec (items : List JsValue) {trees : List JsTree}
    (h : normalizedItems items = .ok trees) :
    itemsMeaning (ofTreeItems trees) = itemsMeaning items ∧ canonicalItems trees := by
  match items with
  | [] =>
      cases h
      simp [ofTreeItems, itemsMeaning, canonicalItems]
  | x :: xs =>
      rw [normalizedItems] at h
      simp only [Fallible.bind_ok] at h
      obtain ⟨y, hy, ys, hys, htrees⟩ := h
      cases htrees
      have hhead := normalizeJson_spec x hy
      have htail := normalizedItems_spec xs hys
      rw [ofTreeItems, itemsMeaning, itemsMeaning, canonicalItems, hhead.1, htail.1]
      exact ⟨rfl, hhead.2, htail.2⟩

theorem normalizedMember_spec (members : List (CodeUnits × JsValue)) {k : CodeUnits} {x : JsValue}
    (hx : members.lookup k = some x) {r : Option JsTree} (h : normalizedMember x = .ok r) :
    (r.map fun t => (JsValue.ofTree t).meaning) = x.said ∧ ∀ t, r = some t → t.Canonical := by
  match members with
  | [] => cases hx
  | (k', z) :: rest =>
      rw [Assoc.lookup_cons_eq] at hx
      split at hx
      · cases hx
        rcases normalizedMember_cases h with ⟨rfl, rfl⟩ | ⟨t, ht, hsaid, rfl⟩
        · exact ⟨rfl, fun t ht => by cases ht⟩
        · have hspec := normalizeJson_spec x ht
          rw [Option.map_some, hspec.1, hsaid]
          exact ⟨rfl, fun t' ht' => Option.some.inj ht' ▸ hspec.2⟩
      · exact normalizedMember_spec rest hx h

end

/-! ## Every JSON value has a canonical text -/

theorem normalizedMember_ok {x : JsValue}
    (h : x = .undefined ∨ ∃ t, x.normalizeJson = .ok t) : ∃ r, normalizedMember x = .ok r := by
  cases hx : x with
  | undefined => exact ⟨none, rfl⟩
  | _ =>
      obtain ⟨t, ht⟩ := h.resolve_left (by simp [hx])
      rw [hx] at ht
      exact ⟨some t, by simp only [normalizedMember, ht, Except.map]⟩

theorem mem_normalizedMembers {members : List (CodeUnits × JsValue)}
    {e : CodeUnits × Except String (Option JsTree)} (h : e ∈ normalizedMembers members) :
    ∃ f ∈ members, e.2 = normalizedMember f.2 := by
  induction members with
  | nil => rw [normalizedMembers] at h; cases h
  | cons f rest ih =>
      obtain ⟨k, x⟩ := f
      rw [normalizedMembers_cons] at h
      rcases Assoc.mem_insertMember h with rfl | hrest
      · exact ⟨(k, x), List.mem_cons_self, rfl⟩
      · obtain ⟨f, hf, he⟩ := ih hrest
        exact ⟨f, List.mem_cons_of_mem _ hf, he⟩

theorem collect_ok {l : List (CodeUnits × Except String (Option JsTree))}
    (h : ∀ e ∈ l, ∃ r, e.2 = .ok r) : ∃ r, collect l = .ok r := by
  induction l with
  | nil => exact ⟨[], rfl⟩
  | cons e rest ih =>
      obtain ⟨k, x⟩ := e
      obtain ⟨y, hy⟩ := h _ List.mem_cons_self
      obtain ⟨ys, hys⟩ := ih fun f hf => h f (List.mem_cons_of_mem _ hf)
      have hx : x = .ok y := hy
      subst hx
      exact ⟨_, by rw [collect, hys]; rfl⟩

theorem membersJson_cons {k : CodeUnits} {x : JsValue} {rest : List (CodeUnits × JsValue)}
    (h : membersJson ((k, x) :: rest) = true) :
    (x = .undefined ∨ x.isJson = true) ∧ membersJson rest = true := by
  cases hx : x with
  | undefined =>
      rw [hx, membersJson, Bool.and_eq_true] at h
      exact ⟨.inl rfl, h.2⟩
  | _ =>
      rw [hx] at h
      simp only [membersJson, Bool.and_eq_true] at h
      exact ⟨.inr h.1, h.2⟩

mutual

theorem normalizeJson_ok (v : JsValue) (h : v.isJson = true) : ∃ t, v.normalizeJson = .ok t := by
  match v with
  | .null | .bool _ | .num _ | .negativeZero | .str _ => exact ⟨_, rfl⟩
  | .undefined | .notFinite | .bigint | .function | .symbol =>
      rw [JsValue.isJson] at h
      cases h
  | .arr items =>
      rw [JsValue.isJson] at h
      obtain ⟨trees, htrees⟩ := normalizedItems_ok items h
      exact ⟨_, by rw [JsValue.normalizeJson, htrees]; rfl⟩
  | .obj plain members =>
      rw [JsValue.isJson, Bool.and_eq_true] at h
      have hmembers : ∀ e ∈ normalizedMembers members, ∃ r, e.2 = .ok r := by
        intro e he
        obtain ⟨f, hf, heq⟩ := mem_normalizedMembers he
        rw [heq]
        exact normalizedMember_ok (normalizedMembers_ok members h.2 f hf)
      obtain ⟨l, hl⟩ := collect_ok hmembers
      exact ⟨_, by rw [JsValue.normalizeJson, if_pos h.1, hl]; rfl⟩

theorem normalizedItems_ok (items : List JsValue) (h : itemsJson items = true) :
    ∃ trees, normalizedItems items = .ok trees := by
  match items with
  | [] => exact ⟨[], rfl⟩
  | x :: xs =>
      rw [itemsJson, Bool.and_eq_true] at h
      obtain ⟨y, hy⟩ := normalizeJson_ok x h.1
      obtain ⟨ys, hys⟩ := normalizedItems_ok xs h.2
      exact ⟨y :: ys, by rw [normalizedItems, hy, hys]; rfl⟩

theorem normalizedMembers_ok (members : List (CodeUnits × JsValue))
    (h : membersJson members = true) (e : CodeUnits × JsValue) (he : e ∈ members) :
    e.2 = .undefined ∨ ∃ t, e.2.normalizeJson = .ok t := by
  match members with
  | [] => cases he
  | (k, x) :: rest =>
      obtain ⟨hx, hrest⟩ := membersJson_cons h
      rcases List.mem_cons.1 he with rfl | hmem
      · exact hx.imp_right (normalizeJson_ok x)
      · exact normalizedMembers_ok rest hrest e hmem

end

mutual

theorem isJson_ofTree (t : JsTree) : (JsValue.ofTree t).isJson = true := by
  match t with
  | .null | .bool _ | .num _ | .str _ => rfl
  | .arr items =>
      rw [JsValue.ofTree, JsValue.isJson]
      exact itemsJson_ofTree items
  | .obj members =>
      rw [JsValue.ofTree, JsValue.isJson, Bool.true_and]
      exact membersJson_ofTree members

theorem itemsJson_ofTree (items : List JsTree) : itemsJson (ofTreeItems items) = true := by
  match items with
  | [] => rfl
  | x :: xs =>
      rw [ofTreeItems, itemsJson, isJson_ofTree x, itemsJson_ofTree xs]
      rfl

theorem membersJson_ofTree (members : List (CodeUnits × JsTree)) :
    membersJson (ofTreeMembers members) = true := by
  match members with
  | [] => rfl
  | (k, x) :: rest =>
      have hx := isJson_ofTree x
      rw [ofTreeMembers]
      cases x <;>
        (rw [JsValue.ofTree] at hx ⊢; simp only [membersJson, hx, membersJson_ofTree rest]; rfl)

end

/-- Canonical data are their own canonical form. -/
theorem normalizeJson_canonical {t : JsTree} (h : t.Canonical) :
    (JsValue.ofTree t).normalizeJson = .ok t := by
  obtain ⟨t', ht'⟩ := normalizeJson_ok _ (isJson_ofTree t)
  obtain ⟨hmeaning, hcanonical⟩ := normalizeJson_spec _ ht'
  rw [ht', canonical_ext t' t hcanonical h hmeaning]

/-- Two values have one canonical form exactly if they say the same. -/
theorem normalizeJson_eq_iff {a b : JsValue} {t t' : JsTree} (ha : a.normalizeJson = .ok t)
    (hb : b.normalizeJson = .ok t') : t = t' ↔ a.meaning = b.meaning := by
  obtain ⟨hmeaning, hcanonical⟩ := normalizeJson_spec a ha
  obtain ⟨hmeaning', hcanonical'⟩ := normalizeJson_spec b hb
  constructor
  · rintro rfl
    rw [← hmeaning, hmeaning']
  · intro heq
    exact canonical_ext t t' hcanonical hcanonical' (by rw [hmeaning, hmeaning', heq])

/-- JSON values have canonical texts, which are equal exactly if the values are, and reading one
and writing it again gives it back. -/
theorem canonicalJson_agrees (a b : JsValue) (ha : a.isJson = true) (hb : b.isJson = true) :
    ∃ s t, a.canonicalJson = .ok s ∧ b.canonicalJson = .ok t ∧ (s = t ↔ a.meaning = b.meaning) ∧
      ∃ tree, JsTree.parse s = some tree ∧ (JsValue.ofTree tree).canonicalJson = .ok s := by
  obtain ⟨t, ht⟩ := normalizeJson_ok a ha
  obtain ⟨t', ht'⟩ := normalizeJson_ok b hb
  have hcanonical := (normalizeJson_spec a ht).2
  have hcanonical' := (normalizeJson_spec b ht').2
  have hproper := proper_of_canonical t hcanonical
  have hproper' := proper_of_canonical t' hcanonical'
  refine ⟨t.text, t'.text, by rw [JsValue.canonicalJson, ht]; rfl,
    by rw [JsValue.canonicalJson, ht']; rfl, ?_, t, parse_text hproper, ?_⟩
  · rw [← normalizeJson_eq_iff ht ht']
    exact ⟨text_inj hproper hproper', congrArg JsTree.text⟩
  · rw [JsValue.canonicalJson, normalizeJson_canonical hcanonical]
    rfl

/-- `{"b": -0, "2": "\ud800", "10": undefined}` and `{"2": "\ud800", "b": 0}` have one text. -/
theorem canonicalJson_agrees_reordered :
    ∃ s t, (JsValue.obj true [(units "b", .negativeZero), (units "2", .str [0xD800]),
        (units "10", .undefined)]).canonicalJson = .ok s ∧
      (JsValue.obj true [(units "2", .str [0xD800]), (units "b", .num (.ofNat 0))]).canonicalJson =
        .ok t ∧ s = t := by
  obtain ⟨s, t, hs, ht, heq, -⟩ := canonicalJson_agrees
    (.obj true [(units "b", .negativeZero), (units "2", .str [0xD800]), (units "10", .undefined)])
    (.obj true [(units "2", .str [0xD800]), (units "b", .num (.ofNat 0))])
    (by decide +kernel) (by decide +kernel)
  refine ⟨s, t, hs, ht, heq.2 ?_⟩
  rw [JsValue.meaning, JsValue.meaning, Meaning.obj.injEq]
  funext name
  have hne : units "b" ≠ units "2" := by decide +kernel
  simp only [memberMeaning, JsValue.meaning]
  split
  · next hb => rw [if_neg (by rw [hb]; exact hne)]
  · split <;> simp

end PiWorkflows
