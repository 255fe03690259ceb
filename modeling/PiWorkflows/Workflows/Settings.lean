import PiWorkflows.State.Schema
import PiWorkflows.Workflows.JsonPatch

/-!
# Settings patches and path permissions (`workflows/settings.ts`)

A patch is applied one operation at a time, and each operation is authorised
against the document as it stands then. Authorisation looks at the pointers of
the operation: the rule with the longest path on the way to a pointer decides
what an actor may do there.

The parser and the validator of a settings definition are code of a workflow
author. They come in as functions of the value and of the change.
-/

namespace PiWorkflows

open Fallible

/-- `WorkflowSettingsPermission`. -/
inductive SettingsPermission where
  | read
  | add
  | remove
  | replace
  deriving DecidableEq, Repr

def SettingsPermission.text : SettingsPermission → String
  | .read => "read"
  | .add => "add"
  | .remove => "remove"
  | .replace => "replace"

/-- `WorkflowSettingsPathRule`. A permission that is not declared has no actors. -/
structure SettingsPathRule where
  path : String
  read : List ActorType := []
  add : List ActorType := []
  remove : List ActorType := []
  replace : List ActorType := []

def SettingsPathRule.actors (rule : SettingsPathRule) : SettingsPermission → List ActorType
  | .read => rule.read
  | .add => rule.add
  | .remove => rule.remove
  | .replace => rule.replace

/-- The loop of `settingsRuleForPath`, with the best match so far and the number
of segments of its path. -/
def settingsRuleLoop (path : List String) :
    List SettingsPathRule → Option (SettingsPathRule × Nat) →
      Except String (Option (SettingsPathRule × Nat))
  | [], best => .ok best
  | rule :: rules, best => do
      let opening ← parseJsonPointer rule.path
      let longer := best.all fun found => found.2 < opening.length
      settingsRuleLoop path rules
        (if opening <+: path ∧ longer = true then some (rule, opening.length) else best)

/-- `settingsRuleForPath`. -/
def settingsRuleForPath (rules : List SettingsPathRule) (pointer : String) :
    Except String (Option SettingsPathRule) := do
  let path ← parseJsonPointer pointer
  let best ← settingsRuleLoop path rules none
  pure (best.map Prod.fst)

/-- `requirePermission`. -/
def requirePermission (rules : List SettingsPathRule) (pointer : String)
    (permission : SettingsPermission) (actor : ActorType) : Except String PUnit := do
  let rule ← settingsRuleForPath rules pointer
  require ((rule.any fun rule => decide (actor ∈ rule.actors permission)) = true)
    (s!"Workflow settings {permission.text} is not allowed at " ++ stringify (.str pointer) ++
      s!" for actor {actor.text}")

/-- `destinationPermission` on the segments of a pointer. The source prints the
parent's segments and parses them again. -/
def destinationPermissionAt (document : Json) (segments : List String) :
    Except String SettingsPermission :=
  if segments = [] then .ok .replace
  else do
    match ← targetAt document segments.dropLast with
    | none => pure .add
    | some (.arr _) => pure .add
    | some _ =>
        match ← targetAt document segments with
        | some _ => pure .replace
        | none => pure .add

/-- `destinationPermission`. -/
def destinationPermission (document : Json) (pointer : String) :
    Except String SettingsPermission := do
  let segments ← parseJsonPointer pointer
  destinationPermissionAt document segments

/-- `requirePermission` for the permission that `destinationPermission` asks for. -/
def requireDestination (rules : List SettingsPathRule) (document : Json) (pointer : String)
    (actor : ActorType) : Except String PUnit := do
  let permission ← destinationPermission document pointer
  requirePermission rules pointer permission actor

/-- `authorizeOperation`. -/
def authorizeOperation (rules : List SettingsPathRule) (document : Json)
    (operation : JsonPatchOperation) (actor : ActorType) : Except String PUnit :=
  match operation with
  | .test path _ => requirePermission rules path .read actor
  | .add path _ => requireDestination rules document path actor
  | .remove path => requirePermission rules path .remove actor
  | .replace path _ => requirePermission rules path .replace actor
  | .copy path source => do
      requirePermission rules source .read actor
      requireDestination rules document path actor
  | .move path source => do
      requirePermission rules source .read actor
      requirePermission rules source .remove actor
      requireDestination rules document path actor

/-- `WorkflowSettingsChangeContext`. -/
structure SettingsChangeContext where
  before : Json
  after : Json
  actor : MutationActor
  source : String
  patch : List JsonPatchOperation

/-- `WorkflowSettingsDefinition`, the parts a change goes through. -/
structure SettingsDefinition where
  paths : List SettingsPathRule
  parse : Json → Except String Json
  validateChange : SettingsChangeContext → Except String PUnit := fun _ => .ok ()

/-- `assertSettingsSize`. -/
def assertSettingsSize (value : Json) : Except String PUnit :=
  require (byteLength (canonicalJson value) ≤ maxWorkflowSettingsBytes)
    s!"Workflow settings cannot exceed {maxWorkflowSettingsBytes} bytes"

/-- `AppliedWorkflowSettings`. -/
structure AppliedSettings where
  patch : List JsonPatchOperation
  json : Json

/-- One round of the loop: authorise the operation, then apply it. -/
def authorizedStep (rules : List SettingsPathRule) (actor : ActorType) (document : Json)
    (operation : JsonPatchOperation) : Except String Json := do
  authorizeOperation rules document operation actor
  applyJsonPatchOperation document operation

/-- `applyWorkflowSettingsPatch`. -/
def applyWorkflowSettingsPatch (definition : SettingsDefinition) (before patchValue : Json)
    (actor : MutationActor) (source : String) : Except String AppliedSettings := do
  let patch ← validateJsonPatch patchValue
  let current ← patch.foldlM (authorizedStep definition.paths actor.type) before
  assertSettingsSize current
  let normalized ← definition.parse current
  assertSettingsSize normalized
  require (canonicalJson normalized = canonicalJson current)
    "Workflow settings parser must validate without changing the patched value"
  definition.validateChange ⟨before, normalized, actor, source, patch⟩
  pure ⟨patch, normalized⟩

end PiWorkflows
