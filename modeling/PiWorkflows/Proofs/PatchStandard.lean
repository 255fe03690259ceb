import PiWorkflows.Proofs.PatchLocations

/-!
# The program's operations beside the standard's

Every operation of the program is one of the standard, with one exception: a move
whose source is its target returns the document before anything has been looked
up, also where there is nothing at that location (`Dangling`). The lemmas about
one operation are `performs_of_apply` and `apply_of_performs`; a patch is read by
the program as the standard reads it once such moves are passed over (`Passes`).
-/

namespace PiWorkflows

open Fallible Rfc6902

/-! ## A removal and an addition in one place -/

/-- One change of a container and then another under the same key. -/
def Then (first second : Json → String → Json → Prop) (container : Json) (key : String)
    (container' : Json) : Prop :=
  ∃ between, first container key between ∧ second between key container'

theorem Rfc6902.Holds.then {members members' members'' : List (String × Json)} {name : String}
    {value value' : Option Json} (h : Holds members name value members')
    (h' : Holds members' name value' members'') : Holds members name value' members'' := by
  intro k
  rw [h' k]
  split
  · rfl
  · next hk => rw [h k, if_neg hk]

theorem repr_inj {i j : Nat} : i.repr = j.repr ↔ i = j :=
  ⟨natRepr_inj, congrArg Nat.repr⟩

theorem changedAt_then {first second : Json → String → Json → Prop}
    {document between document' : Json} {path : List String}
    (h : ChangedAt first document path between) (h' : ChangedAt second between path document') :
    ChangedAt (Then first second) document path document' := by
  induction h generalizing document' with
  | here hfirst =>
      cases h' with
      | here hsecond => exact .here ⟨_, hfirst, hsecond⟩
  | @item items i item item' next rest hitem _ ih =>
      generalize hkey : i.repr = key at h'
      cases h' with
      | @item _ j found item'' _ _ hfound hrest =>
          obtain rfl := repr_inj.1 hkey
          rw [List.getElem?_set_self (List.getElem?_eq_some_iff.1 hitem).1] at hfound
          cases hfound
          rw [List.set_set]
          exact .item hitem (ih hrest)
  | @member members members' name next member member' rest hmember _ hholds ih =>
      cases h' with
      | @member _ members'' _ _ found member'' _ hfound hrest hholds' =>
          have hthere : members'.lookup name = some member' := by rw [hholds name, if_pos rfl]
          rw [hthere] at hfound
          cases hfound
          exact .member hmember (ih hrest) (hholds.then hholds')

theorem then_changedAt {first second : Json → String → Json → Prop} {document document' : Json}
    {path : List String} (h : ChangedAt (Then first second) document path document') :
    ∃ between, ChangedAt first document path between ∧ ChangedAt second between path document' := by
  induction h with
  | here hthen =>
      obtain ⟨between, hfirst, hsecond⟩ := hthen
      exact ⟨between, .here hfirst, .here hsecond⟩
  | @item items i item item' next rest hitem _ ih =>
      obtain ⟨between, hfirst, hsecond⟩ := ih
      have hthere : (items.set i between)[i]? = some between :=
        List.getElem?_set_self (List.getElem?_eq_some_iff.1 hitem).1
      refine ⟨_, .item hitem hfirst, ?_⟩
      have hchanged := ChangedAt.item hthere hsecond
      rwa [List.set_set] at hchanged
  | @member members members' name next member member' rest hmember _ hholds ih =>
      obtain ⟨between, hfirst, hsecond⟩ := ih
      refine ⟨_, .member hmember hfirst holds_setKey, .member ?_ hsecond fun k => ?_⟩
      · rw [Assoc.lookup_setKey, if_pos rfl]
      · rw [hholds k, Assoc.lookup_setKey]
        split
        · rfl
        · rfl

/-- What a write in place makes of a container. -/
inductive Replaced (value : Json) : Json → String → Json → Prop where
  | item {items : List Json} {i : Nat} (h : i < items.length) :
      Replaced value (.arr items) i.repr (.arr (items.set i value))
  | member {members members' : List (String × Json)} {name : String} {old : Json} :
      members.lookup name = some old → Holds members name (some value) members' →
        Replaced value (.obj members) name (.obj members')

/-- Where an item was taken out, a value put in stands in its place. -/
theorem insert_where_deleted {items : List Json} {i : Nat} {value : Json} (hi : i < items.length) :
    (items.take i ++ items.drop (i + 1)).take i ++
        value :: (items.take i ++ items.drop (i + 1)).drop i = items.set i value := by
  have hlength : (items.take i).length = i := List.length_take_of_le (Nat.le_of_lt hi)
  rw [List.take_left' hlength, List.drop_left' hlength, List.set_eq_take_append_cons_drop, if_pos hi]

theorem replaced_iff_then {value container container' : Json} {key : String} :
    Replaced value container key container' ↔
      Then Deleted (Inserted value) container key container' := by
  constructor
  · intro h
    cases h with
    | @item items i hi =>
        refine ⟨_, .item hi, ?_⟩
        rw [← insert_where_deleted hi]
        refine .item ?_
        rw [List.length_append, List.length_take_of_le (Nat.le_of_lt hi)]
        exact Nat.le_add_right _ _
    | @member members members' _ old hold hholds =>
        refine ⟨_, .member hold holds_eraseKey, .member fun k => ?_⟩
        rw [hholds k, Assoc.lookup_eraseKey]
        split
        · rfl
        · rfl
  · rintro ⟨between, hdeleted, hinserted⟩
    cases hdeleted with
    | @item items i hi =>
        generalize hkey : i.repr = key at hinserted
        cases hinserted with
        | @item _ j hj =>
            obtain rfl := repr_inj.1 hkey
            rw [insert_where_deleted hi]
            exact .item hi
        | last => exact absurd hkey (repr_ne_dash i)
    | member hold hholds =>
        cases hinserted with
        | member hholds' => exact .member hold (hholds.then hholds')

theorem changedAt_imp {change change' : Json → String → Json → Prop}
    (himp : ∀ container key container', change container key container' →
      change' container key container')
    {document document' : Json} {path : List String} (h : ChangedAt change document path document') :
    ChangedAt change' document path document' := by
  induction h with
  | here hhere => exact .here (himp _ _ _ hhere)
  | item hitem _ ih => exact .item hitem ih
  | member hmember _ hholds ih => exact .member hmember ih hholds

/-- A removal followed by an addition at the same location is a write in place. -/
theorem replacedAt_iff {value document document' : Json} {path : List String} :
    ChangedAt (Replaced value) document path document' ↔
      ∃ between, Removed document path between ∧
        ChangedAt (Inserted value) between path document' := by
  constructor
  · exact fun h => then_changedAt (changedAt_imp (fun _ _ _ => replaced_iff_then.1) h)
  · rintro ⟨between, hremoved, hinserted⟩
    exact changedAt_imp (fun _ _ _ => replaced_iff_then.2) (changedAt_then hremoved hinserted)

theorem added_below {value document document' : Json} {path : List String}
    (h : Added value document path document') (hpath : path ≠ []) :
    ChangedAt (Inserted value) document path document' := by
  cases h with
  | root => exact absurd rfl hpath
  | below h => exact h

theorem replaced_of_addChild {missing key : String} {container container' value : Json} {r : Unit}
    (h : addChild missing value true container key = .ok (container', r)) :
    Replaced value container key container' := by
  cases container with
  | arr items =>
      simp only [addChild, if_pos, bind_ok, require_ok, pure_ok, Prod.mk.injEq] at h
      obtain ⟨i, hindex, _, hi, rfl, -⟩ := h
      obtain rfl := (parseArrayIndex_inside hi).1 hindex
      exact .item hi
  | obj members =>
      simp only [addChild, bind_ok, require_ok, pure_ok, Prod.mk.injEq] at h
      obtain ⟨_, hthere, rfl, -⟩ := h
      obtain ⟨old, hold⟩ := Option.isSome_iff_exists.1 (hthere trivial)
      exact .member hold holds_setKey
  | _ => cases h

theorem addChild_of_replaced {missing key : String} {container container' value : Json}
    (h : Replaced value container key container') :
    ∃ written r, addChild missing value true container key = .ok (written, r) ∧
      SameJson written container' := by
  cases h with
  | @item items i hi =>
      refine ⟨_, (), ?_, SameJson.refl _⟩
      simp only [addChild, if_pos, bind_ok, require_ok, pure_ok]
      exact ⟨i, (parseArrayIndex_inside hi).2 rfl, .unit, hi, rfl⟩
  | @member members members' _ old hold hholds =>
      refine ⟨.obj (Assoc.setKey key value members), (), ?_, same_of_holds rfl holds_setKey hholds⟩
      simp only [addChild, bind_ok, require_ok, pure_ok, hold, Option.isSome_some]
      exact ⟨.unit, fun _ => trivial, trivial⟩

theorem replaced_of_addValue {document document' value : Json} {path : List String}
    (hpath : path ≠ []) (h : addValue document path value true = .ok document') :
    ChangedAt (Replaced value) document path document' := by
  cases path with
  | nil => exact absurd rfl hpath
  | cons segment rest =>
      simp only [addValue, bind_ok, pure_ok, Prod.exists] at h
      obtain ⟨_, r, hedit, rfl⟩ := h
      exact changedAt_of_editParent (fun _ _ _ _ => replaced_of_addChild) hedit

theorem addValue_of_replaced {document document' value : Json} {path : List String}
    (h : ChangedAt (Replaced value) document path document') :
    ∃ written, addValue document path value true = .ok written ∧ SameJson written document' := by
  cases path with
  | nil => exact absurd rfl (changedAt_ne_nil h)
  | cons segment rest =>
      obtain ⟨written, r, hedit, hsame⟩ := editParent_of_changedAt
        (addChild (missingPath (encodeJsonPointer (segment :: rest))) value true)
        (missingPath (encodeJsonPointer (segment :: rest)))
        (fun _ _ _ hreplaced => addChild_of_replaced hreplaced) h
      refine ⟨written, ?_, hsame⟩
      simp only [addValue, bind_ok, pure_ok, Prod.exists]
      exact ⟨written, r, hedit, rfl⟩

/-! ## A value put back where it stands -/

/-- There is something where a write in place happens. -/
theorem at_of_replacedAt {value document document' : Json} {path : List String}
    (h : ChangedAt (Replaced value) document path document') : ∃ old, At document path old := by
  induction h with
  | here hhere =>
      cases hhere with
      | item hi => exact ⟨_, .item (List.getElem?_eq_getElem hi) .here⟩
      | member hold _ => exact ⟨_, .member hold .here⟩
  | item hitem _ ih =>
      obtain ⟨old, hold⟩ := ih
      exact ⟨old, .item hitem hold⟩
  | member hmember _ _ ih =>
      obtain ⟨old, hold⟩ := ih
      exact ⟨old, .member hmember hold⟩

/-- A value written over itself changes nothing. -/
theorem same_of_replacedAt {value document document' : Json} {path : List String}
    (hat : At document path value) (h : ChangedAt (Replaced value) document path document') :
    SameJson document' document := by
  induction h with
  | here hhere =>
      cases hhere with
      | @item items i hi =>
          obtain ⟨inner, hinner, hvalue⟩ := (at_cons "").1 hat
          obtain ⟨j, hkey, hj⟩ := child_arr.1 hinner
          obtain rfl := repr_inj.1 hkey
          obtain rfl := at_nil.1 hvalue
          rw [set_of_getElem? hj]
          exact SameJson.refl _
      | @member members members' name old hold hholds =>
          obtain ⟨inner, hinner, hvalue⟩ := (at_cons "").1 hat
          obtain rfl := at_nil.1 hvalue
          refine sameJson_obj.2 fun k => ?_
          rw [hholds k]
          split
          · next hk => rw [hk, child_obj.1 hinner]; rfl
          · rfl
  | @item items i item item' next rest hitem _ ih =>
      obtain ⟨inner, hinner, hvalue⟩ := (at_cons "").1 hat
      obtain ⟨j, hkey, hj⟩ := child_arr.1 hinner
      obtain rfl := repr_inj.1 hkey
      rw [hitem] at hj
      cases hj
      have hset := sameJson_arr.2 (sameItems_set (ih hvalue) (rfl : SameItems items items) i)
      rwa [set_of_getElem? hitem] at hset
  | @member members members' name next member member' rest hmember _ hholds ih =>
      obtain ⟨inner, hinner, hvalue⟩ := (at_cons "").1 hat
      rw [child_obj.1 hinner] at hmember
      cases hmember
      refine sameJson_obj.2 fun k => ?_
      rw [hholds k]
      split
      · next hk =>
          rw [hk, child_obj.1 hinner]
          exact sameLookup_some.2 (ih hvalue)
      · rfl

/-- What is there can be written over. -/
theorem replacedAt_of_at (value : Json) {old document : Json} {path : List String} (hpath : path ≠ [])
    (h : At document path old) : ∃ document', ChangedAt (Replaced value) document path document' := by
  induction h with
  | here => exact absurd rfl hpath
  | @item items i item value rest hitem hrest ih =>
      cases rest with
      | nil => exact ⟨_, .here (.item (List.getElem?_eq_some_iff.1 hitem).1)⟩
      | cons next more =>
          obtain ⟨item', hitem'⟩ := ih (List.cons_ne_nil _ _)
          exact ⟨_, .item hitem hitem'⟩
  | @member members name member value rest hmember hrest ih =>
      cases rest with
      | nil => exact ⟨_, .here (.member hmember holds_setKey)⟩
      | cons next more =>
          obtain ⟨member', hmember'⟩ := ih (List.cons_ne_nil _ _)
          exact ⟨_, .member hmember hmember' holds_setKey⟩

/-! ## One operation -/

/-- A move whose source is its target, from a location where there is nothing. -/
def Dangling (document : Json) (operation : JsonPatchOperation) : Prop :=
  ∃ pointer source path, operation = .move pointer source ∧ Pointer pointer.toList path ∧
    Pointer source.toList path ∧ ¬ ∃ value, At document path value

/-- The pointers of an operation are short enough to be read. -/
def ShortPointers (operation : JsonPatchOperation) : Prop :=
  byteLength operation.path ≤ maxJsonPointerBytes ∧
    match operation with
    | .move _ source | .copy _ source => byteLength source ≤ maxJsonPointerBytes
    | _ => True

/-- What the program makes of a document by an operation, the standard makes of
it too, unless the operation is a move of nothing onto itself. -/
theorem performs_of_apply {document result : Json} {operation : JsonPatchOperation}
    (h : applyJsonPatchOperation document operation = .ok result) :
    (∃ document', Rfc6902.Performs document operation document' ∧ SameJson result document') ∨
      (Dangling document operation ∧ result = document) := by
  simp only [applyJsonPatchOperation, bind_ok] at h
  obtain ⟨path, hpath, h⟩ := h
  have hpointer := (parseJsonPointer_iff.1 hpath).2
  cases operation with
  | add pointer value => exact .inl ⟨result, .add hpointer (added_of_addValue h), SameJson.refl _⟩
  | remove pointer =>
      simp only [bind_ok, pure_ok, Prod.exists] at h
      obtain ⟨_, value, hremove, rfl⟩ := h
      exact .inl ⟨_, .remove hpointer (removed_of_removeValue hremove).1, SameJson.refl _⟩
  | replace pointer value =>
      dsimp only at h
      split at h
      · next hroot =>
          subst hroot
          cases h
          exact .inl ⟨_, .replaceRoot hpointer, SameJson.refl _⟩
      · next hroot =>
          simp only [bind_ok] at h
          obtain ⟨_, -, hadd⟩ := h
          obtain ⟨between, hremoved, hinserted⟩ :=
            replacedAt_iff.1 (replaced_of_addValue hroot hadd)
          exact .inl ⟨_, .replace hpointer hremoved (.below hinserted), SameJson.refl _⟩
  | copy pointer source =>
      simp only [bind_ok] at h
      obtain ⟨from_, hfrom, value, htarget, hadd⟩ := h
      exact .inl ⟨_, .copy hpointer (parseJsonPointer_iff.1 hfrom).2 (requireTarget_iff.1 htarget)
        (added_of_addValue hadd), SameJson.refl _⟩
  | test pointer value =>
      simp only [bind_ok, require_ok, pure_ok] at h
      obtain ⟨target, htarget, _, hequal, rfl⟩ := h
      exact .inl ⟨_, .test hpointer (requireTarget_iff.1 htarget)
        (equal_iff_same.2 (canonicalJson_eq_iff_same.1 hequal)), SameJson.refl _⟩
  | move pointer source =>
      simp only [bind_ok] at h
      obtain ⟨from_, hfrom, h⟩ := h
      have hsource := (parseJsonPointer_iff.1 hfrom).2
      split at h
      · next hself =>
          subst hself
          cases h
          by_cases hthere : ∃ value, At document from_ value
          · obtain ⟨value, hvalue⟩ := hthere
            by_cases hroot : from_ = []
            · subst hroot
              exact .inl ⟨_, .moveRoot hpointer hsource, SameJson.refl _⟩
            · obtain ⟨document', hreplaced⟩ := replacedAt_of_at value hroot hvalue
              obtain ⟨between, hremoved, hinserted⟩ := replacedAt_iff.1 hreplaced
              exact .inl ⟨document', .move hpointer hsource hvalue (fun h => h.2 rfl) hremoved
                (.below hinserted), (same_of_replacedAt hvalue hreplaced).symm⟩
          · exact .inr ⟨⟨pointer, source, from_, rfl, hpointer, hsource, hthere⟩, rfl⟩
      · next hself =>
          simp only [bind_ok, Prod.exists] at h
          obtain ⟨removed, value, htake, hadd⟩ := h
          unfold takeMoved at htake
          split at htake
          · cases htake
          · split at htake
            · cases htake
            · next hinside =>
                obtain ⟨hremoved, hvalue⟩ := removed_of_removeValue htake
                exact .inl ⟨_, .move hpointer hsource hvalue (fun h => hinside h.1) hremoved
                  (added_of_addValue hadd), SameJson.refl _⟩

/-- What the standard makes of a document by an operation, the program makes of
it too. -/
theorem apply_of_performs {document document' : Json} {operation : JsonPatchOperation}
    (hshort : ShortPointers operation) (h : Rfc6902.Performs document operation document') :
    ∃ result, applyJsonPatchOperation document operation = .ok result ∧
      SameJson result document' := by
  simp only [applyJsonPatchOperation, bind_ok]
  cases h with
  | add hpointer hadded =>
      obtain ⟨written, hwritten, hsame⟩ := addValue_of_added hadded
      exact ⟨written, ⟨_, parseJsonPointer_iff.2 ⟨hshort.1, hpointer⟩, hwritten⟩, hsame⟩
  | remove hpointer hremoved =>
      obtain ⟨written, value, hwritten, hsame⟩ := removeValue_of_removed hremoved
      refine ⟨written, ⟨_, parseJsonPointer_iff.2 ⟨hshort.1, hpointer⟩, ?_⟩, hsame⟩
      simp only [bind_ok, pure_ok, Prod.exists]
      exact ⟨written, value, hwritten, rfl⟩
  | replaceRoot hpointer =>
      refine ⟨_, ⟨[], parseJsonPointer_iff.2 ⟨hshort.1, hpointer⟩, ?_⟩, SameJson.refl _⟩
      rfl
  | replace hpointer hremoved hadded =>
      have hroot := changedAt_ne_nil hremoved
      have hreplaced := replacedAt_iff.2 ⟨_, hremoved, added_below hadded hroot⟩
      obtain ⟨old, hold⟩ := at_of_replacedAt hreplaced
      obtain ⟨written, hwritten, hsame⟩ := addValue_of_replaced hreplaced
      refine ⟨written, ⟨_, parseJsonPointer_iff.2 ⟨hshort.1, hpointer⟩, ?_⟩, hsame⟩
      dsimp only
      rw [if_neg hroot]
      simp only [bind_ok]
      exact ⟨old, requireTarget_iff.2 hold, hwritten⟩
  | copy hpointer hsource hvalue hadded =>
      obtain ⟨written, hwritten, hsame⟩ := addValue_of_added hadded
      refine ⟨written, ⟨_, parseJsonPointer_iff.2 ⟨hshort.1, hpointer⟩, ?_⟩, hsame⟩
      simp only [bind_ok]
      exact ⟨_, parseJsonPointer_iff.2 ⟨hshort.2, hsource⟩, _, requireTarget_iff.2 hvalue, hwritten⟩
  | test hpointer hvalue hequal =>
      refine ⟨_, ⟨_, parseJsonPointer_iff.2 ⟨hshort.1, hpointer⟩, ?_⟩, SameJson.refl _⟩
      simp only [bind_ok, require_ok, pure_ok]
      exact ⟨_, requireTarget_iff.2 hvalue, .unit,
        canonicalJson_eq_iff_same.2 (equal_iff_same.1 hequal), trivial⟩
  | moveRoot hpointer hsource =>
      refine ⟨_, ⟨[], parseJsonPointer_iff.2 ⟨hshort.1, hpointer⟩, ?_⟩, SameJson.refl _⟩
      simp only [bind_ok]
      exact ⟨[], parseJsonPointer_iff.2 ⟨hshort.2, hsource⟩, rfl⟩
  | @move between _ value pointer source path from_ hpointer hsource hvalue hinside hremoved hadded =>
      have hroot := changedAt_ne_nil hremoved
      by_cases hself : from_ = path
      · subst hself
        have hsame := same_of_replacedAt hvalue
          (replacedAt_iff.2 ⟨_, hremoved, added_below hadded hroot⟩)
        refine ⟨document, ⟨_, parseJsonPointer_iff.2 ⟨hshort.1, hpointer⟩, ?_⟩, hsame.symm⟩
        simp only [bind_ok]
        exact ⟨_, parseJsonPointer_iff.2 ⟨hshort.2, hsource⟩, if_pos rfl⟩
      · obtain ⟨removed, taken, hremove, hsame⟩ := removeValue_of_removed hremoved
        obtain rfl := at_unique hvalue (removed_of_removeValue hremove).2
        obtain ⟨written, hwritten, hsame'⟩ := addValue_of_added hadded
        obtain ⟨result, hresult, hsame''⟩ := addValue_same hsame.symm (SameJson.refl value) hwritten
        refine ⟨result, ⟨_, parseJsonPointer_iff.2 ⟨hshort.1, hpointer⟩, ?_⟩, hsame''.symm.trans hsame'⟩
        simp only [bind_ok]
        refine ⟨_, parseJsonPointer_iff.2 ⟨hshort.2, hsource⟩, ?_⟩
        rw [if_neg hself]
        simp only [bind_ok, Prod.exists]
        refine ⟨removed, value, ?_, hresult⟩
        rw [takeMoved, if_neg hroot, if_neg fun hwithin => hinside ⟨hwithin, hself⟩]
        exact hremove

/-- A move of nothing onto itself leaves the document to the program. -/
theorem apply_of_dangling {document : Json} {operation : JsonPatchOperation}
    (hshort : ShortPointers operation) (h : Dangling document operation) :
    applyJsonPatchOperation document operation = .ok document := by
  obtain ⟨pointer, source, path, rfl, hpointer, hsource, -⟩ := h
  simp only [applyJsonPatchOperation, bind_ok]
  refine ⟨path, parseJsonPointer_iff.2 ⟨hshort.1, hpointer⟩, path, ?_⟩
  exact ⟨parseJsonPointer_iff.2 ⟨hshort.2, hsource⟩, if_pos rfl⟩

/-- The standard fails at a move of nothing onto itself. -/
theorem not_performs_of_dangling {document document' : Json} {operation : JsonPatchOperation}
    (h : Dangling document operation) : ¬ Rfc6902.Performs document operation document' := by
  obtain ⟨pointer, source, path, rfl, hpointer, hsource, hnothing⟩ := h
  intro hperforms
  cases hperforms with
  | moveRoot hpointer' hsource' =>
      obtain rfl := pointer_unique hpointer hpointer'
      exact hnothing ⟨_, .here⟩
  | move hpointer' hsource' hvalue =>
      obtain rfl := pointer_unique hsource hsource'
      exact hnothing ⟨_, hvalue⟩

/-! ## A whole patch -/

/-- The patch as the standard evaluates it, with the moves of nothing onto
themselves passed over. -/
inductive Passes : Json → List JsonPatchOperation → Json → Prop where
  | done {document : Json} : Passes document [] document
  | step {document document' result : Json} {operation : JsonPatchOperation}
      {rest : List JsonPatchOperation} :
      Rfc6902.Performs document operation document' → Passes document' rest result →
        Passes document (operation :: rest) result
  | pass {document result : Json} {operation : JsonPatchOperation}
      {rest : List JsonPatchOperation} :
      Dangling document operation → Passes document rest result →
        Passes document (operation :: rest) result

theorem Rfc6902.Evaluates.passes {document result : Json} {patch : List JsonPatchOperation}
    (h : Evaluates document patch result) : Passes document patch result := by
  induction h with
  | done => exact .done
  | step hperforms _ ih => exact .step hperforms ih

/-- No operation is a move of nothing onto itself on the document that the
operations in front of it make. -/
def Anchored (document : Json) (patch : List JsonPatchOperation) : Prop :=
  ∀ before operation after document', patch = before ++ operation :: after →
    Evaluates document before document' → ¬ Dangling document' operation

theorem Anchored.tail {document document' : Json} {operation : JsonPatchOperation}
    {rest : List JsonPatchOperation} (h : Anchored document (operation :: rest))
    (hperforms : Rfc6902.Performs document operation document') : Anchored document' rest := by
  intro before next after document'' heq hevaluates
  refine h (operation :: before) next after document'' ?_ (.step hperforms hevaluates)
  rw [heq]
  rfl

theorem Passes.evaluates {document result : Json} {patch : List JsonPatchOperation}
    (h : Passes document patch result) (hanchored : Anchored document patch) :
    Evaluates document patch result := by
  induction h with
  | done => exact .done
  | step hperforms _ ih => exact .step hperforms (ih (hanchored.tail hperforms))
  | pass hdangling _ _ => exact absurd hdangling (hanchored [] _ _ _ rfl .done)

theorem SameOperation.refl (operation : JsonPatchOperation) : SameOperation operation operation := by
  cases operation
  case add => exact .add (SameJson.refl _)
  case remove => exact .remove
  case replace => exact .replace (SameJson.refl _)
  case move => exact .move
  case copy => exact .copy
  case test => exact .test (SameJson.refl _)

theorem fold_same {patch : List JsonPatchOperation} {a b c : Json} (h : SameJson a b)
    (hfold : patch.foldlM applyJsonPatchOperation a = .ok c) :
    ∃ c', patch.foldlM applyJsonPatchOperation b = .ok c' ∧ SameJson c c' :=
  foldPatch_same (List.forall₂_same.2 fun operation _ => SameOperation.refl operation) h hfold

/-- What the program makes of a document by a patch, the standard makes of it
once the moves of nothing onto themselves are passed over. -/
theorem passes_of_fold {patch : List JsonPatchOperation} {document result : Json}
    (h : patch.foldlM applyJsonPatchOperation document = .ok result) :
    ∃ result', Passes document patch result' ∧ SameJson result result' := by
  induction patch generalizing document result with
  | nil =>
      cases h
      exact ⟨_, .done, SameJson.refl _⟩
  | cons operation rest ih =>
      simp only [List.foldlM_cons, bind_ok] at h
      obtain ⟨next, hnext, hrest⟩ := h
      rcases performs_of_apply hnext with ⟨document', hperforms, hsame⟩ | ⟨hdangling, rfl⟩
      · obtain ⟨result', hrest', hresult⟩ := fold_same hsame hrest
        obtain ⟨result'', hpasses, hsame'⟩ := ih hrest'
        exact ⟨result'', .step hperforms hpasses, hresult.trans hsame'⟩
      · obtain ⟨result', hpasses, hsame⟩ := ih hrest
        exact ⟨result', .pass hdangling hpasses, hsame⟩

theorem fold_of_passes {patch : List JsonPatchOperation} {document result : Json}
    (hshort : ∀ operation ∈ patch, ShortPointers operation) (h : Passes document patch result) :
    ∃ result', patch.foldlM applyJsonPatchOperation document = .ok result' ∧
      SameJson result' result := by
  induction h with
  | done => exact ⟨_, rfl, SameJson.refl _⟩
  | step hperforms _ ih =>
      obtain ⟨next, hnext, hsame⟩ := apply_of_performs (hshort _ List.mem_cons_self) hperforms
      obtain ⟨result', hrest, hresult⟩ := ih fun o ho => hshort o (List.mem_cons_of_mem _ ho)
      obtain ⟨result'', hrest', hsame'⟩ := fold_same hsame.symm hrest
      refine ⟨result'', ?_, hsame'.symm.trans hresult⟩
      rw [List.foldlM_cons, bind_ok]
      exact ⟨next, hnext, hrest'⟩
  | pass hdangling _ ih =>
      obtain ⟨result', hrest, hresult⟩ := ih fun o ho => hshort o (List.mem_cons_of_mem _ ho)
      refine ⟨result', ?_, hresult⟩
      rw [List.foldlM_cons, bind_ok]
      exact ⟨_, apply_of_dangling (hshort _ List.mem_cons_self) hdangling, hrest⟩

/-- The standard makes one document of another, up to the order of members. -/
theorem evaluates_unique {patch : List JsonPatchOperation} {document result result' : Json}
    (hshort : ∀ operation ∈ patch, ShortPointers operation) (h : Evaluates document patch result)
    (h' : Evaluates document patch result') : SameJson result result' := by
  obtain ⟨r, hr, hsame⟩ := fold_of_passes hshort h.passes
  obtain ⟨r', hr', hsame'⟩ := fold_of_passes hshort h'.passes
  rw [hr] at hr'
  cases hr'
  exact hsame.symm.trans hsame'

theorem at_same {document document' value : Json} {path : List String}
    (h : SameJson document document') (hat : At document path value) :
    ∃ value', At document' path value' := by
  obtain ⟨value', htarget, -⟩ := requireTarget_same h
    (show requireTarget document path "" = .ok value from requireTarget_iff.2 hat)
  exact ⟨value', requireTarget_iff.1 htarget⟩

theorem dangling_same {document document' : Json} {operation : JsonPatchOperation}
    (h : SameJson document document') (hdangling : Dangling document operation) :
    Dangling document' operation := by
  obtain ⟨pointer, source, path, hop, hpointer, hsource, hnothing⟩ := hdangling
  refine ⟨pointer, source, path, hop, hpointer, hsource, fun hthere => ?_⟩
  obtain ⟨value, hvalue⟩ := hthere
  exact hnothing (at_same h.symm hvalue)

theorem evaluates_append {before after : List JsonPatchOperation} {document result : Json} :
    Evaluates document (before ++ after) result ↔
      ∃ between, Evaluates document before between ∧ Evaluates between after result := by
  induction before generalizing document with
  | nil =>
      constructor
      · exact fun h => ⟨document, .done, h⟩
      · rintro ⟨_, ⟨⟩, h⟩
        exact h
  | cons operation rest ih =>
      constructor
      · intro h
        cases h with
        | step hperforms hrest =>
            obtain ⟨between, hbefore, hafter⟩ := ih.1 hrest
            exact ⟨between, .step hperforms hbefore, hafter⟩
      · rintro ⟨between, hbefore, hafter⟩
        cases hbefore with
        | step hperforms hrest => exact .step hperforms (ih.2 ⟨between, hrest, hafter⟩)

/-- A patch that the standard evaluates has no move of nothing onto itself. -/
theorem Rfc6902.Evaluates.anchored {patch : List JsonPatchOperation} {document result : Json}
    (hshort : ∀ operation ∈ patch, ShortPointers operation) (h : Evaluates document patch result) :
    Anchored document patch := by
  rintro before operation after document' rfl hbefore hdangling
  obtain ⟨between, hbetween, hafter⟩ := evaluates_append.1 h
  have hsame := evaluates_unique (fun o ho => hshort o (List.mem_append_left _ ho)) hbefore hbetween
  cases hafter with
  | step hperforms _ => exact not_performs_of_dangling (dangling_same hsame hdangling) hperforms

end PiWorkflows
