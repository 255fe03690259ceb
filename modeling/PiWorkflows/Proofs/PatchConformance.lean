import PiWorkflows.Proofs.PatchMemory
import PiWorkflows.Proofs.PatchStandard

/-!
# Where applying a patch is what RFC 6902 says

A patch within the limits is applied as the standard evaluates it, to the same
document, and the call writes nothing that its caller can see. The exception is
the shortcut for a move whose source is its target: it returns the document
before it has looked whether there is anything to move, and the standard fails
there.
-/

namespace PiWorkflows

open Fallible Rfc6902

/-! ## Patches as the caller passes them -/

/-- The value is the array of the operations, each a plain object with its
members in any order. -/
def IsPatch (value : Json) (patch : List JsonPatchOperation) : Prop :=
  ∃ items, value = .arr items ∧ List.Forall₂ (fun item operation =>
    ∃ members, item = .obj members ∧
      ∀ k, members.lookup k = (JsonPatchOperation.members operation).lookup k) items patch

/-- The limits on a patch. -/
structure WithinLimits (patch : List JsonPatchOperation) : Prop where
  operations : patch.length ≤ maxJsonPatchOperations
  bytes : byteLength (canonicalJson (patchJson patch)) ≤ maxJsonPatchBytes
  pointers : ∀ operation ∈ patch, ShortPointers operation

/-- The limit on a result. -/
def Fits (result : Json) : Prop :=
  byteLength (canonicalJson result) ≤ maxWorkflowSettingsBytes

theorem fits_same {a b : Json} (h : SameJson a b) : Fits a ↔ Fits b := by
  rw [Fits, Fits, canonicalJson_eq_iff_same.2 h]

/-- The members of an operation say which it is. -/
theorem members_injective {a b : JsonPatchOperation}
    (h : ∀ k, a.members.lookup k = b.members.lookup k) : a = b := by
  have hop := h "op"
  have hpath := h "path"
  have hvalue := h "value"
  have hfrom := h "from"
  cases a <;> cases b <;> simp_all [JsonPatchOperation.members, Assoc.lookup_cons_eq]

theorem validates_unique {items : List Json} {patch patch' : List JsonPatchOperation}
    (h : IsPatch (.arr items) patch) (h' : List.Forall₂ Validates items patch') : patch' = patch := by
  obtain ⟨items', heq, hitems⟩ := h
  cases heq
  induction hitems generalizing patch' with
  | nil =>
      cases h'
      rfl
  | cons hitem _ ih =>
      cases h' with
      | cons hvalid hrest =>
          obtain ⟨members, rfl, hmembers⟩ := hitem
          obtain ⟨⟨members', heq, hmembers'⟩, -⟩ := hvalid
          cases heq
          rw [ih hrest, members_injective fun k => (hmembers' k).symm.trans (hmembers k)]

theorem validates_isPatch {items : List Json} {patch : List JsonPatchOperation} :
    List.Forall₂ Validates items patch ↔
      IsPatch (.arr items) patch ∧ ∀ operation ∈ patch, operation.PointersParse := by
  constructor
  · intro h
    induction h with
    | nil => exact ⟨⟨[], rfl, .nil⟩, fun _ hmem => absurd hmem List.not_mem_nil⟩
    | cons hvalid _ ih =>
        obtain ⟨⟨items, heq, hitems⟩, hparse⟩ := ih
        cases heq
        exact ⟨⟨_, rfl, .cons hvalid.1 hitems⟩, List.forall_mem_cons.2 ⟨hvalid.2, hparse⟩⟩
  · rintro ⟨⟨items, heq, hitems⟩, hparse⟩
    cases heq
    induction hitems with
    | nil => exact .nil
    | cons hitem _ ih =>
        obtain ⟨hfirst, hrest⟩ := List.forall_mem_cons.1 hparse
        exact .cons ⟨hitem, hfirst⟩ (ih hrest)

/-- A patch within the limits is accepted as itself if its pointers are pointers. -/
theorem validateJsonPatch_isPatch {value : Json} {patch patch' : List JsonPatchOperation}
    (hpatch : IsPatch value patch) (hlimits : WithinLimits patch) :
    validateJsonPatch value = .ok patch' ↔
      patch' = patch ∧ ∀ operation ∈ patch, operation.PointersParse := by
  rw [validateJsonPatch_ok]
  constructor
  · rintro ⟨items, rfl, -, hvalid, -⟩
    obtain rfl := validates_unique hpatch hvalid
    exact ⟨rfl, (validates_isPatch.1 hvalid).2⟩
  · rintro ⟨rfl, hparse⟩
    obtain ⟨items, rfl, hitems⟩ := hpatch
    refine ⟨items, rfl, ?_, validates_isPatch.2 ⟨⟨items, rfl, hitems⟩, hparse⟩, hlimits.bytes⟩
    rw [hitems.length_eq]
    exact hlimits.operations

/-- The pointers of an operation that is performed, or passed over, are pointers. -/
theorem pointersParse_of_performs {document document' : Json} {operation : JsonPatchOperation}
    (hshort : ShortPointers operation) (h : Rfc6902.Performs document operation document') :
    operation.PointersParse := by
  cases h with
  | add hpointer | remove hpointer | replaceRoot hpointer | replace hpointer | test hpointer =>
      exact ⟨⟨_, parseJsonPointer_iff.2 ⟨hshort.1, hpointer⟩⟩, trivial⟩
  | moveRoot hpointer hsource | move hpointer hsource | copy hpointer hsource =>
      exact ⟨⟨_, parseJsonPointer_iff.2 ⟨hshort.1, hpointer⟩⟩,
        ⟨_, parseJsonPointer_iff.2 ⟨hshort.2, hsource⟩⟩⟩

theorem pointersParse_of_passes {document result : Json} {patch : List JsonPatchOperation}
    (hshort : ∀ operation ∈ patch, ShortPointers operation) (h : Passes document patch result) :
    ∀ operation ∈ patch, operation.PointersParse := by
  induction h with
  | done => exact fun _ hmem => absurd hmem List.not_mem_nil
  | step hperforms _ ih =>
      obtain ⟨hfirst, hrest⟩ := List.forall_mem_cons.1 hshort
      exact List.forall_mem_cons.2 ⟨pointersParse_of_performs hfirst hperforms, ih hrest⟩
  | pass hdangling _ ih =>
      obtain ⟨hfirst, hrest⟩ := List.forall_mem_cons.1 hshort
      refine List.forall_mem_cons.2 ⟨?_, ih hrest⟩
      obtain ⟨pointer, source, path, rfl, hpointer, hsource, -⟩ := hdangling
      exact ⟨⟨_, parseJsonPointer_iff.2 ⟨hfirst.1, hpointer⟩⟩,
        ⟨_, parseJsonPointer_iff.2 ⟨hfirst.2, hsource⟩⟩⟩

/-! ## On values -/

section Values

variable {document value : Json} {patch : List JsonPatchOperation}

/-- An application that succeeds makes what the standard makes, once the moves of
nothing onto themselves are passed over. -/
theorem passes_of_applyJsonPatch {result : Json} (hpatch : IsPatch value patch)
    (hlimits : WithinLimits patch) (h : applyJsonPatch document value = .ok result) :
    ∃ result', Passes document patch result' ∧ Fits result' ∧ SameJson result result' := by
  simp only [applyJsonPatch, bind_ok, require_ok, pure_ok] at h
  obtain ⟨patch', hvalid, current, hfold, _, hfits, rfl⟩ := h
  obtain ⟨rfl, -⟩ := (validateJsonPatch_isPatch hpatch hlimits).1 hvalid
  obtain ⟨result', hpasses, hsame⟩ := passes_of_fold hfold
  exact ⟨result', hpasses, (fits_same hsame).1 hfits, hsame⟩

theorem applyJsonPatch_of_passes {result : Json} (hpatch : IsPatch value patch)
    (hlimits : WithinLimits patch) (hpasses : Passes document patch result) (hfits : Fits result) :
    ∃ result', applyJsonPatch document value = .ok result' ∧ SameJson result' result := by
  obtain ⟨result', hfold, hsame⟩ := fold_of_passes hlimits.pointers hpasses
  have hparse := pointersParse_of_passes hlimits.pointers hpasses
  refine ⟨result', ?_, hsame⟩
  simp only [applyJsonPatch, bind_ok, require_ok, pure_ok]
  exact ⟨patch, (validateJsonPatch_isPatch hpatch hlimits).2 ⟨rfl, hparse⟩, result', hfold, .unit,
    (fits_same hsame).2 hfits, rfl⟩

theorem succeeds_iff_passes (hpatch : IsPatch value patch) (hlimits : WithinLimits patch) :
    (∃ result, applyJsonPatch document value = .ok result) ↔
      ∃ result, Passes document patch result ∧ Fits result := by
  constructor
  · rintro ⟨result, h⟩
    obtain ⟨result', hpasses, hfits, -⟩ := passes_of_applyJsonPatch hpatch hlimits h
    exact ⟨result', hpasses, hfits⟩
  · rintro ⟨result, hpasses, hfits⟩
    obtain ⟨result', h, -⟩ := applyJsonPatch_of_passes hpatch hlimits hpasses hfits
    exact ⟨result', h⟩

/-- Where the program and the standard both have a result, it is the same. -/
theorem equal_of_evaluates {result result' : Json} (hpatch : IsPatch value patch)
    (hlimits : WithinLimits patch) (h : applyJsonPatch document value = .ok result)
    (hevaluates : Evaluates document patch result') : Equal result result' := by
  obtain ⟨passed, hpasses, -, hsame⟩ := passes_of_applyJsonPatch hpatch hlimits h
  have hpassed := hpasses.evaluates (hevaluates.anchored hlimits.pointers)
  exact equal_iff_same.2 (hsame.trans (evaluates_unique hlimits.pointers hpassed hevaluates))

/-- No move of nothing onto itself is reached, or the patch fails without those
moves too. -/
def PatchSound (document : Json) (patch : List JsonPatchOperation) : Prop :=
  Anchored document patch ∨ ¬ ∃ result, Passes document patch result ∧ Fits result

theorem passes_iff_evaluates (hlimits : WithinLimits patch) :
    ((∃ result, Passes document patch result ∧ Fits result) ↔
      ∃ result, Evaluates document patch result ∧ Fits result) ↔ PatchSound document patch := by
  constructor
  · intro hiff
    by_cases hanchored : Anchored document patch
    · exact .inl hanchored
    · refine .inr fun hpasses => hanchored ?_
      obtain ⟨result, hevaluates, -⟩ := hiff.1 hpasses
      exact hevaluates.anchored hlimits.pointers
  · intro hsound
    refine ⟨?_, fun ⟨result, hevaluates, hfits⟩ => ⟨result, hevaluates.passes, hfits⟩⟩
    rintro ⟨result, hpasses, hfits⟩
    rcases hsound with hanchored | hfails
    · exact ⟨result, hpasses.evaluates hanchored, hfits⟩
    · exact absurd ⟨result, hpasses, hfits⟩ hfails

end Values

/-! ## In memory -/

namespace InPlace

/-- The memory a run leaves behind. -/
def memoryAfter : EStateM.Result String Memory Slot → Memory
  | .ok _ memory | .error _ memory => memory

/-- The run ends as the standard says: with success exactly where the standard has
a result within the limit, and then with a value equal to it. -/
def Conforms (document : Json) (patch : List JsonPatchOperation)
    (run : EStateM.Result String Memory Slot) : Prop :=
  ((∃ slot memory', run = .ok slot memory') ↔
      ∃ result, Evaluates document patch result ∧ Fits result) ∧
    ∀ slot memory' result, run = .ok slot memory' → Evaluates document patch result →
      ∃ value, Reads memory' slot value ∧ Equal value result

theorem Follows.succeeds {n : Nat} {memory : Memory} {outcome : Except String Json}
    {run : EStateM.Result String Memory Slot} (h : Follows n memory outcome run) :
    (∃ slot memory', run = .ok slot memory') ↔ ∃ value, outcome = .ok value := by
  cases h with
  | ok => exact iff_of_true ⟨_, _, rfl⟩ ⟨_, rfl⟩
  | error => exact iff_of_false nofun nofun

theorem Follows.reads {n : Nat} {memory memory' : Memory} {outcome : Except String Json}
    {slot : Slot} (h : Follows n memory outcome (.ok slot memory')) :
    ∃ value, outcome = .ok value ∧ Reads memory' slot value := by
  cases h with
  | @ok t _ kept owns => exact ⟨t.value, rfl, height t.value, readJson_owned owns le_rfl⟩

theorem Follows.kept {n : Nat} {memory : Memory} {outcome : Except String Json}
    {run : EStateM.Result String Memory Slot} (h : Follows n memory outcome run) :
    Kept n memory (memoryAfter run) := by
  cases h with
  | ok kept _ => exact kept
  | error kept => exact kept

/-- A patch within the limits, applied to a document, on a stack that is high
enough: no cell that was there before the call is written, whatever its outcome;
the outcome is the standard's exactly where the patch does not come to a move of
nothing onto itself (or fails without it as well); and the pointers it reads are
the texts that their names are written as. -/
theorem applyJsonPatch_conforms_iff {memory : Memory} {document patch : Slot} {d p : Json}
    {operations : List JsonPatchOperation} (hd : Reads memory document d)
    (hp : Reads memory patch p) (hpatch : IsPatch p operations) (hlimits : WithinLimits operations) :
    ∃ bound, ∀ depth, bound ≤ depth →
      Kept memory.length memory (memoryAfter (applyJsonPatch depth document patch memory)) ∧
        (Conforms d operations (applyJsonPatch depth document patch memory) ↔ PatchSound d operations) ∧
          (∀ pointer names, parseJsonPointer pointer = .ok names → encodeJsonPointer names = pointer) ∧
            ∀ names, byteLength (encodeJsonPointer names) ≤ maxJsonPointerBytes →
              parseJsonPointer (encodeJsonPointer names) = .ok names := by
  obtain ⟨bound, hbound⟩ := applyJsonPatch_follows hd hp
  refine ⟨bound, fun depth hdepth => ?_⟩
  have hfollows := hbound depth hdepth
  refine ⟨hfollows.kept, ?_, fun _ _ => encodeJsonPointer_parse, fun _ => parseJsonPointer_encode⟩
  rw [Conforms, hfollows.succeeds, succeeds_iff_passes hpatch hlimits,
    ← passes_iff_evaluates hlimits]
  refine ⟨And.left, fun hiff => ⟨hiff, fun slot memory' result hrun hevaluates => ?_⟩⟩
  rw [hrun] at hfollows
  obtain ⟨value, happlied, hreads⟩ := hfollows.reads
  exact ⟨value, hreads, equal_of_evaluates hpatch hlimits happlied hevaluates⟩

/-- An empty document, and a patch that moves its member `a` onto itself. -/
def selfMove : Memory :=
  [.obj [], .arr [.ref 2],
    .obj [("op", .scalar (.str "move")), ("path", .scalar (.str "/a")),
      ("from", .scalar (.str "/a"))]]

theorem applyJsonPatch_conforms_selfMove :
    ∃ bound, ∀ depth, bound ≤ depth →
      Kept selfMove.length selfMove (memoryAfter (applyJsonPatch depth (.ref 0) (.ref 1) selfMove)) ∧
        (Conforms (.obj []) [.move "/a" "/a"] (applyJsonPatch depth (.ref 0) (.ref 1) selfMove) ↔
          PatchSound (.obj []) [.move "/a" "/a"]) ∧
          (∀ pointer names, parseJsonPointer pointer = .ok names → encodeJsonPointer names = pointer) ∧
            ∀ names, byteLength (encodeJsonPointer names) ≤ maxJsonPointerBytes →
              parseJsonPointer (encodeJsonPointer names) = .ok names := by
  refine applyJsonPatch_conforms_iff ⟨1, rfl⟩ ⟨2, rfl⟩
    ⟨_, rfl, .cons ⟨_, rfl, fun _ => rfl⟩ .nil⟩ ⟨by decide, by decide +kernel, ?_⟩
  rintro operation hmem
  obtain rfl := List.mem_singleton.1 hmem
  exact ⟨by decide, by decide⟩

/-- Where there is nothing to move, the program returns the document and the
standard fails. -/
theorem applyJsonPatch_selfMove :
    applyJsonPatch 2 (.ref 0) (.ref 1) selfMove = .ok (.ref 3) (selfMove ++ [.obj []]) ∧
      ¬ ∃ result, Evaluates (.obj []) [.move "/a" "/a"] result := by
  have hpointer : Pointer "/a".toList ["a"] :=
    .token (.plain (by decide) (by decide) .done) .root
  have hdangling : Dangling (.obj []) (.move "/a" "/a") := by
    refine ⟨"/a", "/a", ["a"], rfl, hpointer, hpointer, ?_⟩
    rintro ⟨value, hvalue⟩
    cases hvalue with
    | member hmember => cases hmember
  refine ⟨rfl, ?_⟩
  rintro ⟨result, hevaluates⟩
  cases hevaluates with
  | step hperforms => exact not_performs_of_dangling hdangling hperforms

end InPlace

end PiWorkflows
