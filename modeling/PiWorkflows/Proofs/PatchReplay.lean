import PiWorkflows.Proofs.SameJson
import PiWorkflows.Workflows.Settings

/-!
# A stored patch replays

The store keeps a patch as canonical text and replays it on a document it read
back from canonical text, so both may list object members in another order than
the call that was authorised. Nothing in a patch can tell: every step of an
application takes equal values to equal values (`applyJsonPatchOperation_same`),
and so does the validation that reads a patch back (`validateJsonPatch_same`).
-/

namespace PiWorkflows

open Fallible

/-! ## Steps into equal documents -/

theorem child_same {missing segment : String} {a b v : Json} (h : SameJson a b)
    (hchild : child missing a segment = .ok v) :
    ∃ v', child missing b segment = .ok v' ∧ SameJson v v' := by
  cases a with
  | arr items =>
      obtain ⟨items', rfl, hitems⟩ := h.arr_left
      simp only [child, bind_ok, orThrow_ok] at hchild ⊢
      obtain ⟨index, hindex, hv⟩ := hchild
      have hat := hitems.getElem? index
      rw [hv] at hat
      obtain ⟨v', hv', hsame⟩ := hat.some_left
      rw [hitems.length_eq] at hindex
      exact ⟨v', ⟨index, hindex, hv'⟩, hsame⟩
  | obj members =>
      obtain ⟨members', rfl, hmembers⟩ := h.obj_left
      simp only [child, orThrow_ok] at hchild ⊢
      have hat := hmembers segment
      rw [hchild] at hat
      exact hat.some_left
  | _ => cases hchild

theorem putChild_same {segment : String} {a b v w : Json} (h : SameJson a b)
    (hv : SameJson v w) : SameJson (putChild a segment v) (putChild b segment w) := by
  cases a with
  | arr items =>
      obtain ⟨items', rfl, hitems⟩ := h.arr_left
      rw [putChild, putChild]
      split
      · exact sameJson_arr.2 (sameItems_set hv hitems _)
      · exact h
  | obj members =>
      obtain ⟨members', rfl, hmembers⟩ := h.obj_left
      exact sameJson_obj.2 (sameLookup_setKey hv hmembers segment)
  | _ =>
      have hb := h.scalar_left rfl
      subst hb
      exact SameJson.refl _

theorem resolveParent_same {missing key : String} {path : List String} {a b parent : Json}
    (h : SameJson a b) (hparent : resolveParent missing a path = .ok (parent, key)) :
    ∃ parent', resolveParent missing b path = .ok (parent', key) ∧ SameJson parent parent' := by
  induction path generalizing a b with
  | nil => cases hparent
  | cons segment rest ih =>
      cases rest with
      | nil =>
          cases hparent
          exact ⟨b, rfl, h⟩
      | cons next more =>
          simp only [resolveParent, bind_ok] at hparent ⊢
          obtain ⟨inner, hinner, hrest⟩ := hparent
          obtain ⟨inner', hinner', hsame⟩ := child_same h hinner
          obtain ⟨parent', hparent', hsame'⟩ := ih hsame hrest
          exact ⟨parent', ⟨inner', hinner', hparent'⟩, hsame'⟩

theorem requireTarget_same {pointer : String} {path : List String} {a b v : Json}
    (h : SameJson a b) (htarget : requireTarget a path pointer = .ok v) :
    ∃ v', requireTarget b path pointer = .ok v' ∧ SameJson v v' := by
  cases path with
  | nil =>
      cases htarget
      exact ⟨b, rfl, h⟩
  | cons segment rest =>
      simp only [requireTarget, bind_ok, Prod.exists] at htarget ⊢
      obtain ⟨parent, key, hparent, hchild⟩ := htarget
      obtain ⟨parent', hparent', hsame⟩ := resolveParent_same h hparent
      obtain ⟨v', hv', hsame'⟩ := child_same hsame hchild
      exact ⟨v', ⟨parent', key, hparent', hv'⟩, hsame'⟩

/-- A change of a container that takes equal containers to equal ones, with
related results. -/
def EditsAlike {α : Type} (R : α → α → Prop) (edit edit' : Json → String → Except String (Json × α)) :
    Prop :=
  ∀ a b key c r, SameJson a b → edit a key = .ok (c, r) →
    ∃ c' r', edit' b key = .ok (c', r') ∧ SameJson c c' ∧ R r r'

theorem editParent_same {α : Type} {R : α → α → Prop} {missing : String}
    {edit edit' : Json → String → Except String (Json × α)} (halike : EditsAlike R edit edit')
    {path : List String} {a b c : Json} {r : α} (h : SameJson a b)
    (hedit : editParent missing edit a path = .ok (c, r)) :
    ∃ c' r', editParent missing edit' b path = .ok (c', r') ∧ SameJson c c' ∧ R r r' := by
  induction path generalizing a b c with
  | nil => cases hedit
  | cons segment rest ih =>
      cases rest with
      | nil => exact halike a b segment c r h hedit
      | cons next more =>
          simp only [editParent, bind_ok, pure_ok, Prod.exists, Prod.mk.injEq] at hedit ⊢
          obtain ⟨inner, hinner, changed, _, hrest, rfl, rfl⟩ := hedit
          obtain ⟨inner', hinner', hsame⟩ := child_same h hinner
          obtain ⟨changed', r', hrest', hchanged, hr⟩ := ih hsame hrest
          exact ⟨_, r', ⟨inner', hinner', changed', r', hrest', rfl, rfl⟩,
            putChild_same h hchanged, hr⟩

/-! ## Writes into equal documents -/

theorem addChild_alike {missing : String} {v w : Json} {replaceOnly : Bool} (hv : SameJson v w) :
    EditsAlike (fun _ _ => True) (addChild missing v replaceOnly) (addChild missing w replaceOnly) := by
  intro a b key c r h hadd
  cases a with
  | arr items =>
      obtain ⟨items', rfl, hitems⟩ := h.arr_left
      cases replaceOnly with
      | true =>
          simp only [addChild, if_pos, bind_ok, require_ok, pure_ok, Prod.mk.injEq] at hadd ⊢
          obtain ⟨index, hindex, _, hbound, rfl, -⟩ := hadd
          rw [hitems.length_eq] at hindex hbound
          exact ⟨_, (), ⟨index, hindex, .unit, hbound, rfl, trivial⟩,
            sameJson_arr.2 (sameItems_set hv hitems index), trivial⟩
      | false =>
          simp only [addChild, Bool.false_eq_true, if_false, bind_ok, require_ok, pure_ok,
            Prod.mk.injEq] at hadd ⊢
          obtain ⟨index, hindex, _, hbound, rfl, -⟩ := hadd
          rw [hitems.length_eq] at hindex hbound
          exact ⟨_, (), ⟨index, hindex, .unit, hbound, rfl, trivial⟩,
            sameJson_arr.2 (sameItems_insertIdx hv hitems index), trivial⟩
  | obj members =>
      obtain ⟨members', rfl, hmembers⟩ := h.obj_left
      simp only [addChild, bind_ok, require_ok, pure_ok, Prod.mk.injEq] at hadd ⊢
      obtain ⟨_, hpresent, rfl, -⟩ := hadd
      rw [(hmembers key).isSome_eq] at hpresent
      exact ⟨_, (), ⟨.unit, hpresent, rfl, trivial⟩,
        sameJson_obj.2 (sameLookup_setKey hv hmembers key), trivial⟩
  | _ => cases hadd

theorem removeChild_alike {missing : String} :
    EditsAlike SameJson (removeChild missing) (removeChild missing) := by
  intro a b key c r h hremove
  cases a with
  | arr items =>
      obtain ⟨items', rfl, hitems⟩ := h.arr_left
      simp only [removeChild, bind_ok, orThrow_ok, pure_ok, Prod.mk.injEq] at hremove ⊢
      obtain ⟨index, hindex, v, hv, rfl, rfl⟩ := hremove
      have hat := hitems.getElem? index
      rw [hv] at hat
      obtain ⟨v', hv', hsame⟩ := hat.some_left
      rw [hitems.length_eq] at hindex
      exact ⟨_, v', ⟨index, hindex, v', hv', rfl, rfl⟩,
        sameJson_arr.2 (sameItems_eraseIdx hitems index), hsame⟩
  | obj members =>
      obtain ⟨members', rfl, hmembers⟩ := h.obj_left
      simp only [removeChild, bind_ok, orThrow_ok, pure_ok, Prod.mk.injEq] at hremove ⊢
      obtain ⟨v, hv, rfl, rfl⟩ := hremove
      have hat := hmembers key
      rw [hv] at hat
      obtain ⟨v', hv', hsame⟩ := hat.some_left
      exact ⟨_, v', ⟨v', hv', rfl, rfl⟩, sameJson_obj.2 (sameLookup_eraseKey hmembers key), hsame⟩
  | _ => cases hremove

theorem addValue_same {path : List String} {replaceOnly : Bool} {a b v w c : Json}
    (h : SameJson a b) (hv : SameJson v w) (hadd : addValue a path v replaceOnly = .ok c) :
    ∃ c', addValue b path w replaceOnly = .ok c' ∧ SameJson c c' := by
  cases path with
  | nil =>
      cases hadd
      exact ⟨w, rfl, hv⟩
  | cons segment rest =>
      simp only [addValue, bind_ok, pure_ok, Prod.exists] at hadd ⊢
      obtain ⟨_, r, hedit, rfl⟩ := hadd
      obtain ⟨c', r', hedit', hsame, -⟩ := editParent_same (addChild_alike hv) h hedit
      exact ⟨c', ⟨c', r', hedit', rfl⟩, hsame⟩

theorem removeValue_same {path : List String} {a b c v : Json} (h : SameJson a b)
    (hremove : removeValue a path = .ok (c, v)) :
    ∃ c' v', removeValue b path = .ok (c', v') ∧ SameJson c c' ∧ SameJson v v' := by
  cases path with
  | nil => cases hremove
  | cons segment rest => exact editParent_same removeChild_alike h hremove

theorem takeMoved_same {path source : List String} {a b c v : Json} (h : SameJson a b)
    (htake : takeMoved a path source = .ok (c, v)) :
    ∃ c' v', takeMoved b path source = .ok (c', v') ∧ SameJson c c' ∧ SameJson v v' := by
  unfold takeMoved at htake ⊢
  split at htake
  · cases htake
  · next hroot =>
      split at htake
      · cases htake
      · next hinside =>
          rw [if_neg hroot, if_neg hinside]
          exact removeValue_same h htake

/-! ## Equal operations -/

/-- The same operation, with equal values. -/
inductive SameOperation : JsonPatchOperation → JsonPatchOperation → Prop where
  | add {path : String} {v w : Json} : SameJson v w → SameOperation (.add path v) (.add path w)
  | remove {path : String} : SameOperation (.remove path) (.remove path)
  | replace {path : String} {v w : Json} :
      SameJson v w → SameOperation (.replace path v) (.replace path w)
  | move {path source : String} : SameOperation (.move path source) (.move path source)
  | copy {path source : String} : SameOperation (.copy path source) (.copy path source)
  | test {path : String} {v w : Json} : SameJson v w → SameOperation (.test path v) (.test path w)

theorem SameOperation.path_eq {a b : JsonPatchOperation} (h : SameOperation a b) :
    a.path = b.path := by
  cases h <;> rfl

theorem applyJsonPatchOperation_same {a b c : Json} {operation operation' : JsonPatchOperation}
    (h : SameJson a b) (hop : SameOperation operation operation')
    (happlied : applyJsonPatchOperation a operation = .ok c) :
    ∃ c', applyJsonPatchOperation b operation' = .ok c' ∧ SameJson c c' := by
  simp only [applyJsonPatchOperation, bind_ok] at happlied ⊢
  obtain ⟨path, hpath, happlied⟩ := happlied
  rw [hop.path_eq] at hpath
  cases hop with
  | add hv =>
      obtain ⟨c', hc', hsame⟩ := addValue_same h hv happlied
      exact ⟨c', ⟨path, hpath, hc'⟩, hsame⟩
  | remove =>
      simp only [bind_ok, pure_ok, Prod.exists] at happlied ⊢
      obtain ⟨_, v, hremove, rfl⟩ := happlied
      obtain ⟨c', v', hremove', hsame, -⟩ := removeValue_same h hremove
      exact ⟨c', ⟨path, hpath, c', v', hremove', rfl⟩, hsame⟩
  | replace hv =>
      dsimp only at happlied ⊢
      split at happlied
      · next hroot =>
          cases happlied
          refine ⟨_, ⟨path, hpath, ?_⟩, hv⟩
          rw [if_pos hroot]
          rfl
      · next hroot =>
          simp only [bind_ok] at happlied
          obtain ⟨target, htarget, hadd⟩ := happlied
          obtain ⟨target', htarget', -⟩ := requireTarget_same h htarget
          obtain ⟨c', hc', hsame⟩ := addValue_same h hv hadd
          refine ⟨c', ⟨path, hpath, ?_⟩, hsame⟩
          rw [if_neg hroot]
          simp only [bind_ok]
          exact ⟨target', htarget', hc'⟩
  | copy =>
      simp only [bind_ok] at happlied ⊢
      obtain ⟨from_, hfrom, v, htarget, hadd⟩ := happlied
      obtain ⟨v', htarget', hv⟩ := requireTarget_same h htarget
      obtain ⟨c', hc', hsame⟩ := addValue_same h hv hadd
      exact ⟨c', ⟨path, hpath, from_, hfrom, v', htarget', hc'⟩, hsame⟩
  | move =>
      simp only [bind_ok] at happlied ⊢
      obtain ⟨from_, hfrom, happlied⟩ := happlied
      split at happlied
      · next hself =>
          cases happlied
          refine ⟨b, ⟨path, hpath, from_, hfrom, ?_⟩, h⟩
          rw [if_pos hself]
          rfl
      · next hself =>
          simp only [bind_ok, Prod.exists] at happlied
          obtain ⟨removed, v, htake, hadd⟩ := happlied
          obtain ⟨removed', v', htake', hremoved, hv⟩ := takeMoved_same h htake
          obtain ⟨c', hc', hsame⟩ := addValue_same hremoved hv hadd
          refine ⟨c', ⟨path, hpath, from_, hfrom, ?_⟩, hsame⟩
          rw [if_neg hself]
          simp only [bind_ok, Prod.exists]
          exact ⟨removed', v', htake', hc'⟩
  | test hv =>
      simp only [bind_ok, require_ok, pure_ok] at happlied ⊢
      obtain ⟨target, htarget, _, hequal, rfl⟩ := happlied
      obtain ⟨target', htarget', hsame⟩ := requireTarget_same h htarget
      have hequal' := hsame.symm.trans ((canonicalJson_eq_iff_same.1 hequal).trans hv)
      exact ⟨b, ⟨path, hpath, target', htarget', .unit, canonicalJson_eq_iff_same.2 hequal', rfl⟩, h⟩

/-- Equal patches take equal documents to equal documents. -/
theorem foldPatch_same {patch patch' : List JsonPatchOperation}
    (hpatch : List.Forall₂ SameOperation patch patch') {a b c : Json} (h : SameJson a b)
    (happlied : patch.foldlM applyJsonPatchOperation a = .ok c) :
    ∃ c', patch'.foldlM applyJsonPatchOperation b = .ok c' ∧ SameJson c c' := by
  induction hpatch generalizing a b with
  | nil =>
      cases happlied
      exact ⟨b, rfl, h⟩
  | cons hop hrest ih =>
      simp only [List.foldlM_cons, bind_ok] at happlied ⊢
      obtain ⟨next, hnext, happlied⟩ := happlied
      obtain ⟨next', hnext', hsame⟩ := applyJsonPatchOperation_same h hop hnext
      obtain ⟨c', hc', hsame'⟩ := ih hsame happlied
      exact ⟨c', ⟨next', hnext', hc'⟩, hsame'⟩

/-! ## Reading a patch back -/

/-- The members of an operation's plain object. -/
def JsonPatchOperation.members : JsonPatchOperation → List (String × Json)
  | .add path value => [("op", .str "add"), ("path", .str path), ("value", value)]
  | .remove path => [("op", .str "remove"), ("path", .str path)]
  | .replace path value => [("op", .str "replace"), ("path", .str path), ("value", value)]
  | .move path source => [("op", .str "move"), ("path", .str path), ("from", .str source)]
  | .copy path source => [("op", .str "copy"), ("path", .str path), ("from", .str source)]
  | .test path value => [("op", .str "test"), ("path", .str path), ("value", value)]

theorem JsonPatchOperation.json_eq (operation : JsonPatchOperation) :
    operation.json = .obj operation.members := by
  cases operation <;> rfl

/-- The pointers of an operation are JSON Pointers. -/
def JsonPatchOperation.PointersParse (operation : JsonPatchOperation) : Prop :=
  (∃ path, parseJsonPointer operation.path = .ok path) ∧
    match operation with
    | .move _ source | .copy _ source => ∃ from_, parseJsonPointer source = .ok from_
    | _ => True

theorem assertExactFields_ok {members : List (String × Json)} {allowed : List String}
    {index : Nat} {u : PUnit} :
    assertExactFields members allowed index = .ok u ↔
      ∀ k, (members.lookup k).isSome = true → k ∈ allowed := by
  unfold assertExactFields
  constructor
  · intro h k hk
    split at h
    · next hnone =>
        obtain ⟨v, hv⟩ := Option.isSome_iff_exists.1 hk
        have hin := List.find?_eq_none.1 hnone (k, v) (Assoc.mem_of_lookup hv)
        simpa using hin
    · cases h
  · intro h
    have hnone : members.find? (fun member => decide (member.1 ∉ allowed)) = none := by
      rw [List.find?_eq_none]
      rintro ⟨k, v⟩ hmem
      have hk : (members.lookup k).isSome = true := by
        rw [Option.isSome_iff_ne_none]
        intro hnone
        rw [List.lookup_eq_none_iff] at hnone
        simpa using hnone (k, v) hmem
      simpa using h k hk
    rw [hnone]

/-- Members that have no other names than the expected ones, and agree on those. -/
theorem lookup_eq_of_exact {members expected : List (String × Json)}
    (hexact : ∀ k, (members.lookup k).isSome = true → k ∈ expected.map Prod.fst)
    (hagree : ∀ k ∈ expected.map Prod.fst, members.lookup k = expected.lookup k) (k : String) :
    members.lookup k = expected.lookup k := by
  by_cases hk : k ∈ expected.map Prod.fst
  · exact hagree k hk
  · have hleft : members.lookup k = none := by
      cases hm : members.lookup k with
      | none => rfl
      | some v => exact absurd (hexact k (by rw [hm]; rfl)) hk
    rw [hleft]
    symm
    rw [List.lookup_eq_none_iff]
    rintro ⟨k', v⟩ hmem
    have hne : k ≠ k' := by
      rintro rfl
      exact hk (List.mem_map_of_mem hmem)
    simpa using hne

/-- The value is an object with the operation's members, and the pointers parse. -/
def Validates (value : Json) (operation : JsonPatchOperation) : Prop :=
  (∃ members, value = .obj members ∧ ∀ k, members.lookup k = operation.members.lookup k) ∧
    operation.PointersParse

theorem validateOperation_ok {value : Json} {index : Nat} {operation : JsonPatchOperation} :
    validateOperation value index = .ok operation ↔ Validates value operation := by
  constructor
  · intro h
    unfold validateOperation at h
    split at h
    · next members =>
        split at h
        · next op path hop hpath =>
            simp only [bind_ok] at h
            obtain ⟨segments, hsegments, h⟩ := h
            split at h
            · next hkind =>
                simp only [bind_ok, orThrow_ok, assertExactFields_ok] at h
                obtain ⟨_, hexact, v, hv, h⟩ := h
                rcases hkind with rfl | rfl | rfl <;> cases h <;>
                  exact ⟨⟨members, rfl, lookup_eq_of_exact hexact (by
                    simp [JsonPatchOperation.members, hop, hpath, hv, List.lookup_cons])⟩,
                    ⟨segments, hsegments⟩, trivial⟩
            · split at h
              · next hkind =>
                  simp only [bind_ok, pure_ok, assertExactFields_ok] at h
                  obtain ⟨_, hexact, rfl⟩ := h
                  subst hkind
                  exact ⟨⟨members, rfl, lookup_eq_of_exact hexact (by
                    simp [JsonPatchOperation.members, hop, hpath, List.lookup_cons])⟩,
                    ⟨segments, hsegments⟩, trivial⟩
              · split at h
                · next hkind =>
                    simp only [bind_ok, assertExactFields_ok] at h
                    obtain ⟨_, hexact, h⟩ := h
                    split at h
                    · next source hsource =>
                        simp only [bind_ok] at h
                        obtain ⟨from_, hfrom, h⟩ := h
                        rcases hkind with rfl | rfl <;> cases h <;>
                          exact ⟨⟨members, rfl, lookup_eq_of_exact hexact (by
                            simp [JsonPatchOperation.members, hop, hpath, hsource, List.lookup_cons])⟩,
                            ⟨segments, hsegments⟩, ⟨from_, hfrom⟩⟩
                    · cases h
                · cases h
        · cases h
    · cases h
  · rintro ⟨⟨members, rfl, hmembers⟩, ⟨path, hpath⟩, hsource⟩
    have hexact : assertExactFields members (operation.members.map Prod.fst) index =
        .ok .unit := by
      rw [assertExactFields_ok]
      intro k hk
      rw [hmembers k] at hk
      obtain ⟨v, hv⟩ := Option.isSome_iff_exists.1 hk
      exact List.mem_map_of_mem (Assoc.mem_of_lookup hv)
    cases operation with
    | add p v =>
        have hop : members.lookup "op" = some (.str "add") := hmembers "op"
        have hpointer : members.lookup "path" = some (.str p) := hmembers "path"
        have hvalue : members.lookup "value" = some v := hmembers "value"
        have hpath : parseJsonPointer p = .ok path := hpath
        have hfields : assertExactFields members ["op", "path", "value"] index = .ok .unit := hexact
        simp [validateOperation, hop, hpointer, hvalue, hpath, hfields,
          orThrow, Functor.map, Except.map]
    | remove p =>
        have hop : members.lookup "op" = some (.str "remove") := hmembers "op"
        have hpointer : members.lookup "path" = some (.str p) := hmembers "path"
        have hpath : parseJsonPointer p = .ok path := hpath
        have hfields : assertExactFields members ["op", "path"] index = .ok .unit := hexact
        simp [validateOperation, hop, hpointer, hpath, hfields, Functor.map, Except.map]
    | replace p v =>
        have hop : members.lookup "op" = some (.str "replace") := hmembers "op"
        have hpointer : members.lookup "path" = some (.str p) := hmembers "path"
        have hvalue : members.lookup "value" = some v := hmembers "value"
        have hpath : parseJsonPointer p = .ok path := hpath
        have hfields : assertExactFields members ["op", "path", "value"] index = .ok .unit := hexact
        simp [validateOperation, hop, hpointer, hvalue, hpath, hfields,
          orThrow, Functor.map, Except.map]
    | move p source =>
        obtain ⟨from_, hsource⟩ := hsource
        have hop : members.lookup "op" = some (.str "move") := hmembers "op"
        have hpointer : members.lookup "path" = some (.str p) := hmembers "path"
        have hfrom : members.lookup "from" = some (.str source) := hmembers "from"
        have hpath : parseJsonPointer p = .ok path := hpath
        have hfields : assertExactFields members ["op", "path", "from"] index = .ok .unit := hexact
        simp [validateOperation, hop, hpointer, hfrom, hpath, hsource, hfields,
          Functor.map, Except.map]
    | copy p source =>
        obtain ⟨from_, hsource⟩ := hsource
        have hop : members.lookup "op" = some (.str "copy") := hmembers "op"
        have hpointer : members.lookup "path" = some (.str p) := hmembers "path"
        have hfrom : members.lookup "from" = some (.str source) := hmembers "from"
        have hpath : parseJsonPointer p = .ok path := hpath
        have hfields : assertExactFields members ["op", "path", "from"] index = .ok .unit := hexact
        simp [validateOperation, hop, hpointer, hfrom, hpath, hsource, hfields,
          Functor.map, Except.map]
    | test p v =>
        have hop : members.lookup "op" = some (.str "test") := hmembers "op"
        have hpointer : members.lookup "path" = some (.str p) := hmembers "path"
        have hvalue : members.lookup "value" = some v := hmembers "value"
        have hpath : parseJsonPointer p = .ok path := hpath
        have hfields : assertExactFields members ["op", "path", "value"] index = .ok .unit := hexact
        simp [validateOperation, hop, hpointer, hvalue, hpath, hfields,
          orThrow, Functor.map, Except.map]

theorem validateJsonPatch_ok {value : Json} {patch : List JsonPatchOperation} :
    validateJsonPatch value = .ok patch ↔
      ∃ items, value = .arr items ∧ items.length ≤ maxJsonPatchOperations ∧
        List.Forall₂ Validates items patch ∧
          byteLength (canonicalJson (patchJson patch)) ≤ maxJsonPatchBytes := by
  have hitems : ∀ (items : List Json) (patch : List JsonPatchOperation),
      items.zipIdx.mapM (fun e => validateOperation e.1 e.2) = .ok patch ↔
        List.Forall₂ Validates items patch := by
    intro items patch
    simp only [mapM_ok, validateOperation_ok]
    rw [← List.forall₂_map_left_iff (f := Prod.fst), List.zipIdx_map_fst]
  cases value with
  | arr items =>
      simp only [validateJsonPatch, bind_ok, require_ok, pure_ok, hitems]
      constructor
      · rintro ⟨_, hlength, _, hpatch, _, hsize, rfl⟩
        exact ⟨items, rfl, hlength, hpatch, hsize⟩
      · rintro ⟨_, heq, hlength, hpatch, hsize⟩
        cases heq
        exact ⟨.unit, hlength, patch, hpatch, .unit, hsize, rfl⟩
  | _ => simp [validateJsonPatch]

theorem validates_json {operation : JsonPatchOperation} (h : operation.PointersParse) :
    Validates operation.json operation :=
  ⟨⟨operation.members, operation.json_eq, fun _ => rfl⟩, h⟩

theorem validates_patchJson {items : List Json} {patch : List JsonPatchOperation}
    (h : List.Forall₂ Validates items patch) :
    List.Forall₂ Validates (patch.map JsonPatchOperation.json) patch := by
  induction h with
  | nil => exact .nil
  | cons hvalid _ ih => exact .cons (validates_json hvalid.2) ih

/-- A validated patch validates again, as itself. -/
theorem validateJsonPatch_patchJson {value : Json} {patch : List JsonPatchOperation}
    (h : validateJsonPatch value = .ok patch) : validateJsonPatch (patchJson patch) = .ok patch := by
  obtain ⟨items, rfl, hlength, hitems, hsize⟩ := validateJsonPatch_ok.1 h
  refine validateJsonPatch_ok.2 ⟨_, rfl, ?_, ?_, hsize⟩
  · rw [List.length_map, ← hitems.length_eq]
    exact hlength
  · exact validates_patchJson hitems

theorem SameOperation.json {a b : JsonPatchOperation} (h : SameOperation a b) :
    SameJson a.json b.json := by
  cases h with
  | add hv | replace hv | test hv =>
      have hv : normalizeJson _ = normalizeJson _ := hv
      simp only [SameJson, JsonPatchOperation.json, normalizeJson, normalizeMembers, hv]
  | _ => rfl

theorem validates_same {a b : Json} {operation : JsonPatchOperation} (h : SameJson a b)
    (hvalid : Validates a operation) :
    ∃ operation', Validates b operation' ∧ SameOperation operation operation' := by
  obtain ⟨⟨members, rfl, hmembers⟩, hpointers⟩ := hvalid
  obtain ⟨members', rfl, hsame⟩ := h.obj_left
  have hlookup : ∀ k, SameLookup (operation.members.lookup k) (members'.lookup k) := fun k =>
    hmembers k ▸ hsame k
  have htext : ∀ k text, operation.members.lookup k = some (.str text) →
      members'.lookup k = some (.str text) := by
    intro k text hk
    have hat := hlookup k
    rw [hk] at hat
    obtain ⟨v, hv, hscalar⟩ := hat.some_left
    rw [hv, hscalar.scalar_left rfl]
  have hvalue : ∀ k v, operation.members.lookup k = some v →
      ∃ w, members'.lookup k = some w ∧ SameJson v w := by
    intro k v hk
    have hat := hlookup k
    rw [hk] at hat
    exact hat.some_left
  have hexact : ∀ k, (members'.lookup k).isSome = true → k ∈ operation.members.map Prod.fst := by
    intro k hk
    rw [← (hlookup k).isSome_eq] at hk
    obtain ⟨v, hv⟩ := Option.isSome_iff_exists.1 hk
    exact List.mem_map_of_mem (Assoc.mem_of_lookup hv)
  have hread : ∀ operation' : JsonPatchOperation,
      operation'.members.map Prod.fst = operation.members.map Prod.fst →
      (∀ k ∈ operation.members.map Prod.fst, members'.lookup k = operation'.members.lookup k) →
      operation'.PointersParse → Validates (.obj members') operation' := by
    intro operation' hnames hagree hparse
    exact ⟨⟨members', rfl, lookup_eq_of_exact (hnames ▸ hexact) (hnames ▸ hagree)⟩, hparse⟩
  cases operation with
  | add path v =>
      obtain ⟨w, hw, hsame⟩ := hvalue "value" v rfl
      refine ⟨.add path w, hread _ rfl ?_ hpointers, .add hsame⟩
      simp [JsonPatchOperation.members, htext "op" "add" rfl, htext "path" path rfl, hw, List.lookup_cons]
  | remove path =>
      refine ⟨.remove path, hread _ rfl ?_ hpointers, .remove⟩
      simp [JsonPatchOperation.members, htext "op" "remove" rfl, htext "path" path rfl, List.lookup_cons]
  | replace path v =>
      obtain ⟨w, hw, hsame⟩ := hvalue "value" v rfl
      refine ⟨.replace path w, hread _ rfl ?_ hpointers, .replace hsame⟩
      simp [JsonPatchOperation.members, htext "op" "replace" rfl, htext "path" path rfl, hw,
        List.lookup_cons]
  | move path source =>
      refine ⟨.move path source, hread _ rfl ?_ hpointers, .move⟩
      simp [JsonPatchOperation.members, htext "op" "move" rfl, htext "path" path rfl,
        htext "from" source rfl, List.lookup_cons]
  | copy path source =>
      refine ⟨.copy path source, hread _ rfl ?_ hpointers, .copy⟩
      simp [JsonPatchOperation.members, htext "op" "copy" rfl, htext "path" path rfl,
        htext "from" source rfl, List.lookup_cons]
  | test path v =>
      obtain ⟨w, hw, hsame⟩ := hvalue "value" v rfl
      refine ⟨.test path w, hread _ rfl ?_ hpointers, .test hsame⟩
      simp [JsonPatchOperation.members, htext "op" "test" rfl, htext "path" path rfl, hw,
        List.lookup_cons]

theorem patchJson_same {patch patch' : List JsonPatchOperation}
    (h : List.Forall₂ SameOperation patch patch') : SameJson (patchJson patch) (patchJson patch') := by
  rw [patchJson, patchJson, sameJson_arr, SameItems]
  induction h with
  | nil => rfl
  | cons hop _ ih =>
      have hjson : normalizeJson _ = normalizeJson _ := hop.json
      simp only [List.map_cons, hjson, ih]

/-- What reads as a patch reads as an equal one after it was stored. -/
theorem validateJsonPatch_same {a b : Json} {patch : List JsonPatchOperation} (h : SameJson a b)
    (hvalid : validateJsonPatch a = .ok patch) :
    ∃ patch', validateJsonPatch b = .ok patch' ∧ List.Forall₂ SameOperation patch patch' := by
  obtain ⟨items, rfl, hlength, hitems, hsize⟩ := validateJsonPatch_ok.1 hvalid
  obtain ⟨items', rfl, hsame⟩ := h.arr_left
  have hread : ∃ patch', List.Forall₂ Validates items' patch' ∧
      List.Forall₂ SameOperation patch patch' := by
    clear h hvalid hlength hsize
    induction hitems generalizing items' with
    | nil =>
        have hnil : items' = [] := List.map_eq_nil_iff.1 hsame.symm
        exact ⟨[], hnil ▸ .nil, .nil⟩
    | cons hvalid _ ih =>
        obtain ⟨item', rest', rfl, hitem, hrest⟩ := List.map_eq_cons_iff.1 hsame.symm
        obtain ⟨operation', hvalid', hop⟩ := validates_same hitem.symm hvalid
        obtain ⟨patch', hpatch', hops⟩ := ih rest' hrest.symm
        exact ⟨operation' :: patch', .cons hvalid' hpatch', .cons hop hops⟩
  obtain ⟨patch', hpatch', hops⟩ := hread
  refine ⟨patch', validateJsonPatch_ok.2 ⟨items', rfl, ?_, hpatch', ?_⟩, hops⟩
  · rw [← hsame.length_eq]
    exact hlength
  · rw [← canonicalJson_eq_iff_same.2 (patchJson_same hops)]
    exact hsize

/-- Replaying a stored patch on a stored document gives the accepted result. -/
theorem applyJsonPatch_stored {value a b c : Json} {patch : List JsonPatchOperation}
    (hvalid : validateJsonPatch value = .ok patch)
    (happlied : patch.foldlM applyJsonPatchOperation a = .ok c)
    (hsize : byteLength (canonicalJson c) ≤ maxWorkflowSettingsBytes) (h : SameJson a b) :
    ∃ c', applyJsonPatch b (normalizeJson (patchJson patch)) = .ok c' ∧ SameJson c c' := by
  obtain ⟨patch', hvalid', hops⟩ :=
    validateJsonPatch_same (sameJson_normalize _).symm (validateJsonPatch_patchJson hvalid)
  obtain ⟨c', happlied', hsame⟩ := foldPatch_same hops h happlied
  refine ⟨c', ?_, hsame⟩
  simp only [applyJsonPatch, bind_ok, require_ok, pure_ok]
  rw [canonicalJson_eq_iff_same.2 hsame] at hsize
  exact ⟨patch', hvalid', c', happlied', .unit, hsize, rfl⟩

end PiWorkflows
