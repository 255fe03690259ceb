import PiWorkflows.Proofs.SameJson
import PiWorkflows.Workflows.Settings

/-!
# What a settings patch can reach

An operation writes at its own pointers and nowhere else: as long as the way to
a pointer goes through objects, a write that is not at, above or below it leaves
its value alone (`editParent_frame`, then one lemma for each kind of write).
Together with the authorisation of every write pointer this bounds what a patch
can do to a value (`patch_reaches_only_granted`): it changes only if the patch
writes at, above or below it where the actor may write.

Above or below is the point. Authorisation asks for the rule of the pointer that
is written, so a rule that protects a value does not keep out a write to an
object around it that a shorter rule allows.
-/

namespace PiWorkflows

open Fallible

/-! ## Values behind objects -/

/-- No container on the way to a pointer is an array. -/
def NoArrayOn : Json → List String → Prop
  | _, [] => True
  | .arr _, _ :: _ => False
  | .obj members, segment :: rest => ∀ v, members.lookup segment = some v → NoArrayOn v rest
  | _, _ :: _ => True

/-- The value behind a path of object members. -/
def memberAt : Json → List String → Option Json
  | document, [] => some document
  | .obj members, segment :: rest =>
      match members.lookup segment with
      | some member => memberAt member rest
      | none => none
  | _, _ :: _ => none

theorem targetAt_of_noArray {document : Json} {path : List String}
    (h : NoArrayOn document path) : targetAt document path = .ok (memberAt document path) := by
  induction path generalizing document with
  | nil => cases document <;> rfl
  | cons segment rest ih =>
      cases document with
      | arr items => exact h.elim
      | obj members =>
          rw [targetAt, memberAt]
          cases hm : members.lookup segment with
          | none => rfl
          | some v => exact ih (h v hm)
      | _ => rfl

/-- The same value behind a path, and still no array on the way. -/
def SameAlong (path : List String) (document document' : Json) : Prop :=
  NoArrayOn document' path ∧ memberAt document' path = memberAt document path

theorem SameAlong.of_lookup {m m' : List (String × Json)} {segment : String}
    {rest : List String} (h : m'.lookup segment = m.lookup segment)
    (hno : NoArrayOn (.obj m) (segment :: rest)) :
    SameAlong (segment :: rest) (.obj m) (.obj m') :=
  ⟨fun v hv => hno v (h ▸ hv), by rw [memberAt, memberAt, h]⟩

/-- Neither path continues the other. -/
def Apart (p q : List String) : Prop :=
  ¬ p <+: q ∧ ¬ q <+: p

theorem Apart.cons {s t : String} {p q : List String} (h : Apart (s :: p) (t :: q)) :
    s ≠ t ∨ Apart p q := by
  by_cases hst : s = t
  · subst hst
    refine .inr ⟨fun hp => h.1 ?_, fun hq => h.2 ?_⟩
    · exact List.cons_prefix_cons.2 ⟨rfl, hp⟩
    · exact List.cons_prefix_cons.2 ⟨rfl, hq⟩
  · exact .inl hst

/-! ## Frames -/

/-- A change of a container that touches one member of an object at most. -/
def KeyLocal {α : Type} (edit : Json → String → Except String (Json × α)) : Prop :=
  ∀ parent key parent' result, edit parent key = .ok (parent', result) →
    (∃ items, parent = .arr items) ∨
      ∃ m m', parent = .obj m ∧ parent' = .obj m' ∧ ∀ k, k ≠ key → m'.lookup k = m.lookup k

theorem child_obj_ok {missing : String} {m : List (String × Json)} {segment : String} {v : Json}
    (h : child missing (.obj m) segment = .ok v) : m.lookup segment = some v := by
  simpa [child] using h

/-- A walk that ends apart from a path leaves the value behind it alone. -/
theorem editParent_frame {α : Type} {missing : String}
    {edit : Json → String → Except String (Json × α)} (hedit : KeyLocal edit)
    {document document' : Json} {result : α} {q p : List String} (hno : NoArrayOn document p)
    (hapart : Apart q p) (h : editParent missing edit document q = .ok (document', result)) :
    SameAlong p document document' := by
  induction q generalizing document document' p with
  | nil => exact absurd List.nil_prefix hapart.1
  | cons t rest ih =>
      cases p with
      | nil => exact absurd List.nil_prefix hapart.2
      | cons s p' =>
          cases rest with
          | nil =>
              rw [editParent] at h
              rcases hedit _ _ _ _ h with ⟨items, rfl⟩ | ⟨m, m', rfl, rfl, hsame⟩
              · exact hno.elim
              · refine .of_lookup (hsame s ?_) hno
                rintro rfl
                exact hapart.1 (List.cons_prefix_cons.2 ⟨rfl, List.nil_prefix⟩)
          | cons next more =>
              simp only [editParent, bind_ok, pure_ok, Prod.exists, Prod.mk.injEq] at h
              obtain ⟨inner, hinner, inner', result', hrest, rfl, rfl⟩ := h
              cases document with
              | arr items => exact hno.elim
              | obj m =>
                  have hlookup := child_obj_ok hinner
                  show SameAlong (s :: p') (.obj m) (.obj (Assoc.setKey t inner' m))
                  rcases hapart.cons with hne | hapart'
                  · refine .of_lookup ?_ hno
                    rw [Assoc.lookup_setKey, if_neg (Ne.symm hne)]
                  · by_cases hst : s = t
                    · subst hst
                      obtain ⟨hno', hsame⟩ := ih (hno inner hlookup) hapart' hrest
                      constructor
                      · intro v hv
                        rw [Assoc.lookup_setKey, if_pos rfl] at hv
                        cases hv
                        exact hno'
                      · simp only [memberAt, Assoc.lookup_setKey, if_pos, hlookup]
                        exact hsame
                    · refine .of_lookup ?_ hno
                      rw [Assoc.lookup_setKey, if_neg hst]
              | _ => cases hinner

theorem addChild_keyLocal {missing : String} {value : Json} {replaceOnly : Bool} :
    KeyLocal (addChild missing value replaceOnly) := by
  intro parent key parent' result h
  cases parent with
  | arr items => exact .inl ⟨items, rfl⟩
  | obj m =>
      simp only [addChild, bind_ok, pure_ok, Prod.mk.injEq] at h
      obtain ⟨_, _, rfl, _⟩ := h
      refine .inr ⟨m, _, rfl, rfl, fun k hk => ?_⟩
      rw [Assoc.lookup_setKey, if_neg hk]
  | _ => cases h

theorem removeChild_keyLocal {missing : String} : KeyLocal (removeChild missing) := by
  intro parent key parent' result h
  cases parent with
  | arr items => exact .inl ⟨items, rfl⟩
  | obj m =>
      simp only [removeChild, bind_ok, pure_ok, Prod.mk.injEq] at h
      obtain ⟨_, _, rfl, _⟩ := h
      refine .inr ⟨m, _, rfl, rfl, fun k hk => ?_⟩
      rw [Assoc.lookup_eraseKey, if_neg hk]
  | _ => cases h

section

variable {document document' : Json} {p q : List String}

theorem addValue_frame {value : Json} {replaceOnly : Bool} (hno : NoArrayOn document p)
    (hapart : Apart q p) (h : addValue document q value replaceOnly = .ok document') :
    SameAlong p document document' := by
  cases q with
  | nil => exact absurd List.nil_prefix hapart.1
  | cons t rest =>
      simp only [addValue, bind_ok, pure_ok, Prod.exists] at h
      obtain ⟨_, _, hedit, rfl⟩ := h
      exact editParent_frame addChild_keyLocal hno hapart hedit

theorem removeValue_frame {value : Json} (hno : NoArrayOn document p) (hapart : Apart q p)
    (h : removeValue document q = .ok (document', value)) : SameAlong p document document' := by
  cases q with
  | nil => exact absurd List.nil_prefix hapart.1
  | cons t rest => exact editParent_frame removeChild_keyLocal hno hapart h

end

/-! ## Operations -/

/-- The pointers an operation writes at. -/
def JsonPatchOperation.writePointers : JsonPatchOperation → List String
  | .add path _ | .remove path | .replace path _ | .copy path _ => [path]
  | .move path source => [source, path]
  | .test _ _ => []

/-- No pointer an operation writes at is at, above or below a path. -/
def WritesApart (operation : JsonPatchOperation) (p : List String) : Prop :=
  ∀ pointer ∈ operation.writePointers, ∀ q, parseJsonPointer pointer = .ok q → Apart q p

theorem takeMoved_ok {document : Json} {path source : List String} {r : Json × Json}
    (h : takeMoved document path source = .ok r) : removeValue document source = .ok r := by
  unfold takeMoved at h
  split at h
  · cases h
  · split at h
    · cases h
    · exact h

theorem applyJsonPatchOperation_frame {document document' : Json}
    {operation : JsonPatchOperation} {p : List String} (hno : NoArrayOn document p)
    (hapart : WritesApart operation p)
    (h : applyJsonPatchOperation document operation = .ok document') :
    SameAlong p document document' := by
  cases operation with
  | add path value =>
      simp only [applyJsonPatchOperation, bind_ok] at h
      obtain ⟨q, hq, h⟩ := h
      exact addValue_frame hno (hapart path List.mem_cons_self q hq) h
  | remove path =>
      simp only [applyJsonPatchOperation, bind_ok, pure_ok, Prod.exists] at h
      obtain ⟨q, hq, _, _, h, rfl⟩ := h
      exact removeValue_frame hno (hapart path List.mem_cons_self q hq) h
  | replace path value =>
      simp only [applyJsonPatchOperation, bind_ok] at h
      obtain ⟨q, hq, h⟩ := h
      have hq' := hapart path List.mem_cons_self q hq
      split at h
      · next hroot => subst hroot; exact absurd List.nil_prefix hq'.1
      · simp only [bind_ok] at h
        obtain ⟨_, _, h⟩ := h
        exact addValue_frame hno hq' h
  | copy path source =>
      simp only [applyJsonPatchOperation, bind_ok] at h
      obtain ⟨q, hq, _, _, _, _, h⟩ := h
      exact addValue_frame hno (hapart path List.mem_cons_self q hq) h
  | move path source =>
      simp only [applyJsonPatchOperation, bind_ok] at h
      obtain ⟨q, hq, f, hf, h⟩ := h
      split at h
      · cases h
        exact ⟨hno, rfl⟩
      · simp only [bind_ok, Prod.exists] at h
        obtain ⟨removed, value, htaken, h⟩ := h
        obtain ⟨hno', hsame⟩ := removeValue_frame hno (hapart source List.mem_cons_self f hf)
          (takeMoved_ok htaken)
        have hwrite := addValue_frame hno'
          (hapart path (List.mem_cons_of_mem _ List.mem_cons_self) q hq) h
        exact ⟨hwrite.1, hwrite.2.trans hsame⟩
  | test path value =>
      simp only [applyJsonPatchOperation, bind_ok, pure_ok] at h
      obtain ⟨_, _, _, _, _, _, rfl⟩ := h
      exact ⟨hno, rfl⟩

/-! ## Authorisation -/

/-- The most specific rule for a pointer lets an actor add, remove or replace
there. -/
def GrantsWrite (rules : List SettingsPathRule) (pointer : String) (actor : ActorType) : Prop :=
  ∃ permission, permission ≠ .read ∧ requirePermission rules pointer permission actor = .ok ()

theorem destinationPermissionAt_ne_read {document : Json} {segments : List String}
    {permission : SettingsPermission}
    (h : destinationPermissionAt document segments = .ok permission) : permission ≠ .read := by
  unfold destinationPermissionAt at h
  split at h
  · cases h; decide
  · simp only [bind_ok] at h
    obtain ⟨parent, _, h⟩ := h
    split at h
    · cases h; decide
    · cases h; decide
    · simp only [bind_ok] at h
      obtain ⟨target, _, h⟩ := h
      split at h <;> (cases h; decide)

theorem requireDestination_ok {rules : List SettingsPathRule} {document : Json}
    {pointer : String} {actor : ActorType}
    (h : requireDestination rules document pointer actor = .ok ()) :
    GrantsWrite rules pointer actor := by
  simp only [requireDestination, destinationPermission, bind_ok] at h
  obtain ⟨permission, ⟨segments, _, hpermission⟩, h⟩ := h
  exact ⟨permission, destinationPermissionAt_ne_read hpermission, h⟩

/-- An authorised operation may write at every pointer it writes at. -/
theorem authorizeOperation_grants {rules : List SettingsPathRule} {document : Json}
    {operation : JsonPatchOperation} {actor : ActorType}
    (h : authorizeOperation rules document operation actor = .ok ()) :
    ∀ pointer ∈ operation.writePointers, GrantsWrite rules pointer actor := by
  intro pointer hpointer
  cases operation with
  | add path value =>
      cases List.mem_singleton.1 hpointer
      exact requireDestination_ok h
  | remove path =>
      cases List.mem_singleton.1 hpointer
      exact ⟨.remove, by decide, h⟩
  | replace path value =>
      cases List.mem_singleton.1 hpointer
      exact ⟨.replace, by decide, h⟩
  | copy path source =>
      cases List.mem_singleton.1 hpointer
      simp only [authorizeOperation, bind_ok] at h
      obtain ⟨_, _, h⟩ := h
      exact requireDestination_ok h
  | move path source =>
      simp only [authorizeOperation, bind_ok] at h
      obtain ⟨_, _, _, hremove, h⟩ := h
      rcases List.mem_cons.1 hpointer with rfl | hpath
      · exact ⟨.remove, by decide, hremove⟩
      · cases List.mem_singleton.1 hpath
        exact requireDestination_ok h
  | test path value => cases hpointer

/-- Permissions depend on where a pointer leads, not on how it is written. -/
theorem requirePermission_congr {rules : List SettingsPathRule} {p q : String}
    {segments : List String} {permission : SettingsPermission} {actor : ActorType}
    (hp : parseJsonPointer p = .ok segments) (hq : parseJsonPointer q = .ok segments)
    (h : requirePermission rules q permission actor = .ok ()) :
    requirePermission rules p permission actor = .ok () := by
  simp only [requirePermission, settingsRuleForPath, hp, hq, bind_ok, pure_ok, require_ok] at h ⊢
  exact h

/-! ## Patches -/

section

variable {rules : List SettingsPathRule} {actor : ActorType}

theorem authorizedStep_ok {document document' : Json} {operation : JsonPatchOperation}
    (h : authorizedStep rules actor document operation = .ok document') :
    authorizeOperation rules document operation actor = .ok () ∧
      applyJsonPatchOperation document operation = .ok document' := by
  simp only [authorizedStep, bind_ok] at h
  obtain ⟨_, hauthorized, happlied⟩ := h
  exact ⟨hauthorized, happlied⟩

/-- A patch none of whose operations writes at, above or below a path leaves the
value behind it alone. -/
theorem authorizedSteps_frame {patch : List JsonPatchOperation} {document document' : Json}
    {p : List String} (hno : NoArrayOn document p)
    (hapart : ∀ operation ∈ patch, WritesApart operation p)
    (h : patch.foldlM (authorizedStep rules actor) document = .ok document') :
    SameAlong p document document' := by
  induction patch generalizing document with
  | nil =>
      rw [List.foldlM_nil, pure_ok] at h
      subst h
      exact ⟨hno, rfl⟩
  | cons operation rest ih =>
      rw [List.foldlM_cons, bind_ok] at h
      obtain ⟨middle, hstep, hrest⟩ := h
      obtain ⟨hno', hsame⟩ := applyJsonPatchOperation_frame hno
        (hapart operation List.mem_cons_self) (authorizedStep_ok hstep).2
      have htail := ih hno' (fun o ho => hapart o (List.mem_cons_of_mem _ ho)) hrest
      exact ⟨htail.1, htail.2.trans hsame⟩

/-- Every pointer an accepted patch writes at is granted. -/
theorem authorizedSteps_grant {patch : List JsonPatchOperation} {document document' : Json}
    (h : patch.foldlM (authorizedStep rules actor) document = .ok document') :
    ∀ operation ∈ patch, ∀ pointer ∈ operation.writePointers, GrantsWrite rules pointer actor := by
  induction patch generalizing document with
  | nil => intro operation hmem; cases hmem
  | cons operation rest ih =>
      rw [List.foldlM_cons, bind_ok] at h
      obtain ⟨middle, hstep, hrest⟩ := h
      intro o ho
      rcases List.mem_cons.1 ho with rfl | ho
      · exact authorizeOperation_grants (authorizedStep_ok hstep).1
      · exact ih hrest o ho

end

/-- Members compare alike in equal documents. -/
theorem memberAt_same {a b : Json} (h : SameJson a b) {p : List String} (hno : NoArrayOn a p) :
    NoArrayOn b p ∧ SameLookup (memberAt a p) (memberAt b p) := by
  induction p generalizing a b with
  | nil => exact ⟨by cases b <;> trivial, by cases a <;> cases b <;> exact sameLookup_some.2 h⟩
  | cons segment rest ih =>
      cases a with
      | arr items => exact hno.elim
      | obj m =>
          obtain ⟨m', rfl, hm⟩ := h.obj_left
          have hk := hm segment
          simp only [NoArrayOn, memberAt]
          cases hl : m.lookup segment with
          | none =>
              rw [hl] at hk
              rw [hk.none_left]
              exact ⟨nofun, rfl⟩
          | some v =>
              rw [hl] at hk
              obtain ⟨v', hv', hvv⟩ := hk.some_left
              obtain ⟨hno', hsame⟩ := ih hvv (hno v hl)
              rw [hv']
              exact ⟨fun w hw => Option.some.inj hw ▸ hno', hsame⟩
      | _ =>
          cases h.scalar_left rfl
          exact ⟨trivial, rfl⟩

/-- A value that an actor may not write is changed by an accepted patch only if
the patch writes strictly above or strictly below it, at a pointer whose own
most specific rule lets the actor write. -/
theorem patch_reaches_only_granted {definition : SettingsDefinition} {before patchValue : Json}
    {actor : MutationActor} {source pointer : String} {applied : AppliedSettings}
    {p : List String}
    (h : applyWorkflowSettingsPatch definition before patchValue actor source = .ok applied)
    (hp : parseJsonPointer pointer = .ok p) (hno : NoArrayOn before p)
    (hdenied : ¬ GrantsWrite definition.paths pointer actor.type) :
    (∃ value value', targetAt before p = .ok value ∧ targetAt applied.json p = .ok value' ∧
        SameLookup value value') ∨
      ∃ operation ∈ applied.patch, ∃ q ∈ operation.writePointers, ∃ segments,
        parseJsonPointer q = .ok segments ∧ (segments <+: p ∨ p <+: segments) ∧
          segments ≠ p ∧ GrantsWrite definition.paths q actor.type := by
  simp only [applyWorkflowSettingsPatch, bind_ok, require_ok, pure_ok] at h
  obtain ⟨patch, _, current, hcurrent, _, _, normalized, _, _, _, _, hsame, _, _, rfl⟩ := h
  by_cases hapart : ∀ operation ∈ patch, WritesApart operation p
  · left
    obtain ⟨hno', hmember⟩ := authorizedSteps_frame hno hapart hcurrent
    obtain ⟨hno'', hlookup⟩ := memberAt_same (canonicalJson_eq_iff_same.1 hsame).symm hno'
    refine ⟨_, _, targetAt_of_noArray hno, targetAt_of_noArray hno'', ?_⟩
    rw [← hmember]
    exact hlookup
  · right
    simp only [WritesApart, Apart, not_forall] at hapart
    obtain ⟨operation, hoperation, q, hq, segments, hsegments, hcompare⟩ := hapart
    have hgrant := authorizedSteps_grant hcurrent operation hoperation q hq
    refine ⟨operation, hoperation, q, hq, segments, hsegments, ?_, ?_, hgrant⟩
    · by_contra hnot
      exact hcompare ⟨fun hpre => hnot (.inl hpre), fun hpre => hnot (.inr hpre)⟩
    · rintro rfl
      obtain ⟨permission, hwrite, hallowed⟩ := hgrant
      exact hdenied ⟨permission, hwrite, requirePermission_congr hp hsegments hallowed⟩

/-! ## A rule that an ancestor passes by -/

/-- A session may replace the document, and only read what is under `/secret`. -/
def sealedDefinition : SettingsDefinition where
  paths := [{ path := "", replace := [.session] }, { path := "/secret", read := [.session] }]
  parse := .ok

/-- A session may replace `/open` only. -/
def fencedDefinition : SettingsDefinition where
  paths := [{ path := "/open", replace := [.session] }, { path := "/secret", read := [.session] }]
  parse := .ok

def sealedSettings (secret : Bool) : Json :=
  .obj [("open", .bool secret), ("secret", .bool secret)]

/-- `[{ op: "replace", path, value }]`. -/
def replacePatch (path : String) (value : Json) : Json :=
  .arr [.obj [("op", .str "replace"), ("path", .str path), ("value", value)]]

theorem sealed_denied : ¬ GrantsWrite sealedDefinition.paths "/secret" .session := by
  rintro ⟨permission, hwrite, h⟩
  revert h
  cases permission with
  | read => exact absurd rfl hwrite
  | _ => decide

theorem fenced_denied : ¬ GrantsWrite fencedDefinition.paths "/secret" .session := by
  rintro ⟨permission, hwrite, h⟩
  revert h
  cases permission with
  | read => exact absurd rfl hwrite
  | _ => decide

/-- The rule for `/secret` grants a session no write, and the session changes the
value there by replacing the document around it. -/
theorem rootReplace_changes_sealed :
    parseJsonPointer "/secret" = .ok ["secret"] ∧
      NoArrayOn (sealedSettings false) ["secret"] ∧
      ¬ GrantsWrite sealedDefinition.paths "/secret" .session ∧
      ∃ applied,
        applyWorkflowSettingsPatch sealedDefinition (sealedSettings false)
          (replacePatch "" (sealedSettings true)) ⟨.session, none⟩ "tool" = .ok applied ∧
        targetAt (sealedSettings false) ["secret"] = .ok (some (.bool false)) ∧
        targetAt applied.json ["secret"] = .ok (some (.bool true)) := by
  refine ⟨by decide, ?_, sealed_denied, _, rfl, rfl, rfl⟩
  exact fun _ _ => by simp [NoArrayOn]

/-- A session replaces `/open`, and what is under `/secret` stays. -/
theorem openReplace_keeps_fenced :
    ∃ applied,
      applyWorkflowSettingsPatch fencedDefinition (sealedSettings false)
        (replacePatch "/open" (.bool true)) ⟨.session, none⟩ "tool" = .ok applied ∧
      ((∃ value value', targetAt (sealedSettings false) ["secret"] = .ok value ∧
          targetAt applied.json ["secret"] = .ok value' ∧ SameLookup value value') ∨
        ∃ operation ∈ applied.patch, ∃ q ∈ operation.writePointers, ∃ segments,
          parseJsonPointer q = .ok segments ∧
            (segments <+: ["secret"] ∨ ["secret"] <+: segments) ∧
              segments ≠ ["secret"] ∧ GrantsWrite fencedDefinition.paths q .session) := by
  have hrun : applyWorkflowSettingsPatch fencedDefinition (sealedSettings false)
      (replacePatch "/open" (.bool true)) ⟨.session, none⟩ "tool" = .ok _ := rfl
  have hpointer : parseJsonPointer "/secret" = .ok ["secret"] := by decide
  have hno : NoArrayOn (sealedSettings false) ["secret"] := fun _ _ => by simp [NoArrayOn]
  exact ⟨_, hrun, patch_reaches_only_granted hrun hpointer hno fenced_denied⟩

end PiWorkflows
