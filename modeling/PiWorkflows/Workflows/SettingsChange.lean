import PiWorkflows.Workflows.Settings

/-!
# Settings scopes and their changes (`workflows/store.ts`)

A settings scope has a current value, a revision and a history of accepted
changes. A call of `changeSettings` works in turns of the event loop: it looks
for a change that already has its request id, reads the scope, waits for the
parser and the validator of the settings, and only then opens the transaction
that checks the revision and commits. Between two turns of one call any other
call may run. A call that finds a newer revision starts over, at most eight
times in all, unless it asked for a fixed change number.

A column that holds a blob's hash holds the blob's content here, in the order of
members the canonical text has; the store refuses a second content under one
hash. Where the source compares hashes, the digests of the contents are
compared, and `sha256` is a parameter. The row of a scope carries the revision
of its resource. Events and viewer deltas, which no part of this reads, are left
out.
-/

namespace PiWorkflows

open Fallible

/-- What a call of the store throws: `StaleResourceError`, or any other error. -/
inductive StoreError where
  | stale (message : String)
  | failed (message : String)
  deriving DecidableEq

/-! ## Rows -/

/-- A row of `workflow_settings`, with the revision of its resource. -/
structure SettingsScopeRow where
  originRunId : String
  activeRunId : String
  mountPath : String
  invocation : Nat
  initial : Json
  current : Json
  revision : Nat
  createdAt : Int
  updatedAt : Int

/-- A row of `workflow_setting_changes`. -/
structure SettingsChangeRow where
  changeId : String
  scopeId : String
  requestId : String
  changeNumber : Nat
  actor : MutationActor
  source : String
  patch : Json
  before : Json
  after : Json
  acceptedAt : Int

/-- The tables a settings change reads and writes. -/
structure SettingsStore where
  runs : List (String × StoredRunStatus)
  scopes : Table String SettingsScopeRow
  changes : List SettingsChangeRow

/-! ## Records -/

/-- `WorkflowSettingsScopeRecord`. -/
structure SettingsScopeRecord where
  scopeId : String
  originRunId : String
  activeRunId : String
  mountPath : String
  invocation : Nat
  changeNumber : Nat
  settings : Json
  settingsHash : String
  createdAt : Int
  updatedAt : Int

/-- `WorkflowSettingsChangeRecord`. -/
structure SettingsChangeRecord where
  changeId : String
  scopeId : String
  requestId : String
  changeNumber : Nat
  actor : MutationActor
  source : String
  patch : List JsonPatchOperation
  beforeHash : String
  afterHash : String
  acceptedAt : Int

/-- `WorkflowSettingsChangeRequest`. -/
structure SettingsChangeRequest where
  runId : String
  scopeId : String
  requestId : String
  expectedChangeNumber : Option Int := none
  actor : MutationActor
  source : String
  patch : Json

/-- `WorkflowSettingsChangeResult`. -/
structure SettingsChangeResult where
  scope : SettingsScopeRecord
  change : SettingsChangeRecord
  adopted : Bool

/-! ## Checks on a request -/

def isIdentifierChar (c : Char) : Bool :=
  c.isAlphanum || c == '.' || c == '_' || c == ':' || c == '-'

/-- The pattern of a request id: at most 512 characters, the first alphanumeric. -/
def isStableIdentifier (text : String) : Bool :=
  match text.toList with
  | [] => false
  | c :: rest => c.isAlphanum && rest.all isIdentifierChar && rest.length ≤ 511

/-- `assertRequestId`. -/
def assertRequestId (requestId : String) : Except StoreError PUnit :=
  require (isStableIdentifier requestId = true)
    (.failed "Workflow request ID must be a stable identifier of at most 512 characters")

/-- `assertSourceType`. -/
def assertSourceType (source : String) : Except StoreError PUnit :=
  require (isBlank source = false ∧ utf16Length source ≤ 128)
    (.failed "Workflow change source must be a non-empty string of at most 128 characters")

/-! ## Reads -/

section

variable (sha256 : String → String) (store : SettingsStore)

/-- `settingsChangeRow`. -/
def settingsChangeRow (scopeId requestId : String) : Option SettingsChangeRow :=
  store.changes.find? fun change => change.scopeId = scopeId ∧ change.requestId = requestId

/-- `requireSettingsScopeRow`. -/
def requireSettingsScopeRow (scopeId : String) : Except StoreError SettingsScopeRow :=
  orThrow (.failed s!"Workflow settings scope not found: {scopeId}") (store.scopes.get? scopeId)

/-- `requireRunAcceptsSettings`. -/
def requireRunAcceptsSettings (runId : String) (allowWaiting : Bool) : Except StoreError PUnit := do
  let status ← orThrow (.failed s!"Workflow run is missing: {runId}") (store.runs.lookup runId)
  require (status = .running ∨ (allowWaiting = true ∧ status = .waiting))
    (.failed s!"Workflow run {runId} does not accept changes with status {status.text}")

/-- `settingsScopeRecord`. -/
def settingsScopeRecord (scopeId : String) (row : SettingsScopeRow) : SettingsScopeRecord where
  scopeId := scopeId
  originRunId := row.originRunId
  activeRunId := row.activeRunId
  mountPath := row.mountPath
  invocation := row.invocation
  changeNumber := row.revision
  settings := row.current
  settingsHash := jsonHash sha256 row.current
  createdAt := row.createdAt
  updatedAt := row.updatedAt

/-- `settingsChangeRecord`. -/
def settingsChangeRecord (row : SettingsChangeRow) : Except StoreError SettingsChangeRecord := do
  let patch ← (validateJsonPatch row.patch).mapError .failed
  pure
    { changeId := row.changeId
      scopeId := row.scopeId
      requestId := row.requestId
      changeNumber := row.changeNumber
      actor := row.actor
      source := row.source
      patch := patch
      beforeHash := jsonHash sha256 row.before
      afterHash := jsonHash sha256 row.after
      acceptedAt := row.acceptedAt }

/-- What a call returns for a row of the history. -/
def settingsChangeResult (scopeId : String) (row : SettingsChangeRow) (adopted : Bool) :
    Except StoreError SettingsChangeResult := do
  let scope ← requireSettingsScopeRow store scopeId
  let change ← settingsChangeRecord sha256 row
  pure ⟨settingsScopeRecord sha256 scopeId scope, change, adopted⟩

/-- The request asks for the change that the row holds. -/
def IsSameSettingsChange (row : SettingsChangeRow) (request : SettingsChangeRequest)
    (patchDigest : String) : Prop :=
  jsonHash sha256 row.patch = patchDigest ∧ row.actor = request.actor ∧
    row.source = request.source

instance (row : SettingsChangeRow) (request : SettingsChangeRequest) (patchDigest : String) :
    Decidable (IsSameSettingsChange sha256 row request patchDigest) :=
  inferInstanceAs (Decidable (_ ∧ _))

/-- `assertSameSettingsChange`. -/
def assertSameSettingsChange (row : SettingsChangeRow) (request : SettingsChangeRequest)
    (patchDigest : String) : Except StoreError PUnit :=
  require (IsSameSettingsChange sha256 row request patchDigest)
    (.failed "Workflow settings request ID was reused with different content")

/-! ## One call -/

/-- Where a call stands between two turns. -/
inductive CallPhase where
  | awaiting (attempt : Nat) (patch : List JsonPatchOperation) (scope : SettingsScopeRow)
  | returned (result : Except StoreError SettingsChangeResult)

/-- The number of attempts of one call. -/
def maxSettingsAttempts : Nat := 8

/-- The checks of an attempt on the scope it reads. -/
def readSettingsScope (request : SettingsChangeRequest) : Except StoreError SettingsScopeRow := do
  let scope ← requireSettingsScopeRow store request.scopeId
  require (scope.activeRunId = request.runId)
    (.failed s!"Workflow settings scope is not active for run {request.runId}")
  requireRunAcceptsSettings store request.runId true
  match request.expectedChangeNumber with
  | none => pure scope
  | some expected => do
      require (expected = scope.revision)
        (.stale s!"Workflow settings changed: expected {expected}, current {scope.revision}")
      pure scope

/-- An attempt up to the point where it waits. -/
def openAttempt (request : SettingsChangeRequest) (patch : List JsonPatchOperation)
    (attempt : Nat) : CallPhase :=
  if attempt < maxSettingsAttempts then
    match settingsChangeRow store request.scopeId request.requestId with
    | some prior => .returned do
        assertSameSettingsChange sha256 prior request (jsonHash sha256 (patchJson patch))
        settingsChangeResult sha256 store request.scopeId prior true
    | none =>
        match readSettingsScope store request with
        | .ok scope => .awaiting attempt patch scope
        | .error e => .returned (.error e)
  else
    .returned (.error (.stale "Workflow settings kept changing; retry with an expected number"))

/-- The checks before the first attempt. -/
def checkSettingsRequest (request : SettingsChangeRequest) :
    Except StoreError (List JsonPatchOperation) := do
  assertRequestId request.requestId
  assertSourceType request.source
  (validateJsonPatch request.patch).mapError .failed

/-- The first turn of a call. -/
def startCall (request : SettingsChangeRequest) : CallPhase :=
  match checkSettingsRequest request with
  | .ok patch => openAttempt sha256 store request patch 0
  | .error e => .returned (.error e)

/-- `INSERT INTO workflow_setting_changes`, with the three keys of the table. -/
def insertSettingsChange (row : SettingsChangeRow) :
    Except StoreError (List SettingsChangeRow) := do
  require
    (∀ change ∈ store.changes, change.changeId ≠ row.changeId ∧
      ¬ (change.scopeId = row.scopeId ∧ change.requestId = row.requestId) ∧
        ¬ (change.scopeId = row.scopeId ∧ change.changeNumber = row.changeNumber))
    (.failed "UNIQUE constraint failed: workflow_setting_changes")
  pure (store.changes ++ [row])

/-- The row a commit adds. -/
def committedChange (request : SettingsChangeRequest) (read : SettingsScopeRow)
    (applied : AppliedSettings) (changeId : String) (now : Int) : SettingsChangeRow where
  changeId := changeId
  scopeId := request.scopeId
  requestId := request.requestId
  changeNumber := read.revision + 1
  actor := request.actor
  source := request.source
  patch := storedJson (patchJson applied.patch)
  before := read.current
  after := storedJson applied.json
  acceptedAt := now

/-- The transaction of a call: `mutate` on the revision that was read. -/
def commitSettingsChange (request : SettingsChangeRequest) (read : SettingsScopeRow)
    (applied : AppliedSettings) (changeId : String) (now : Int) :
    Except StoreError SettingsStore := do
  let resource ← orThrow (.failed s!"Unknown resource: {request.scopeId}")
    (store.scopes.get? request.scopeId)
  require (resource.revision = read.revision)
    (.stale "Resource revision changed before mutation")
  requireRunAcceptsSettings store request.runId true
  let current ← requireSettingsScopeRow store request.scopeId
  require
    (current.activeRunId = request.runId ∧
      jsonHash sha256 current.current = jsonHash sha256 read.current)
    (.stale "Workflow settings changed before the patch committed")
  let row := committedChange request read applied changeId now
  let changes ← insertSettingsChange store row
  let scopes := store.scopes.update request.scopeId fun scope =>
    { scope with current := row.after, revision := scope.revision + 1, updatedAt := now }
  pure { store with scopes := scopes, changes := changes }

/-- What a call returns after its own commit. -/
def committedResult (request : SettingsChangeRequest) (changeId : String) :
    Except StoreError SettingsChangeResult :=
  match settingsChangeRow store request.scopeId request.requestId with
  | some row =>
      if row.changeId = changeId then
        settingsChangeResult sha256 store request.scopeId row false
      else .error (.failed "Accepted workflow settings change is missing")
  | none => .error (.failed "Accepted workflow settings change is missing")

/-- The turn after the wait: the store it leaves, and where the call stands. -/
def resumeCall (definition : SettingsDefinition) (request : SettingsChangeRequest)
    (attempt : Nat) (patch : List JsonPatchOperation) (read : SettingsScopeRow)
    (changeId : String) (now : Int) : SettingsStore × CallPhase :=
  match applyWorkflowSettingsPatch definition read.current (patchJson patch) request.actor
      request.source with
  | .error message => (store, .returned (.error (.failed message)))
  | .ok applied =>
      match commitSettingsChange sha256 store request read applied changeId now with
      | .ok store' => (store', .returned (committedResult sha256 store' request changeId))
      | .error (.failed message) => (store, .returned (.error (.failed message)))
      | .error (.stale message) =>
          if request.expectedChangeNumber = none then
            (store, openAttempt sha256 store request patch (attempt + 1))
          else (store, .returned (.error (.stale message)))

end

/-! ## Other writers of the tables -/

/-- `workflowSettingsScopeId`. -/
def workflowSettingsScopeId (originRunId mountPath : String) (invocation : Nat) :
    Except StoreError String := do
  require (0 < invocation) (.failed "Workflow settings invocation must be a positive integer")
  let mount := if mountPath = "" then "$root" else mountPath
  pure s!"{originRunId}:{mount}:{invocation}"

/-- `ensureSettingsScope`. -/
def ensureSettingsScope (store : SettingsStore) (runId mountPath : String) (invocation : Nat)
    (settings : Json) (now : Int) : Except StoreError SettingsStore := do
  requireRunAcceptsSettings store runId false
  let scopeId ← workflowSettingsScopeId runId mountPath invocation
  match store.scopes.get? scopeId with
  | some existing => do
      require (existing.activeRunId = runId)
        (.failed s!"Workflow settings scope belongs to another active run: {scopeId}")
      pure store
  | none => do
      let row : SettingsScopeRow :=
        { originRunId := runId, activeRunId := runId, mountPath := mountPath
          invocation := invocation, initial := storedJson settings, current := storedJson settings
          revision := 0, createdAt := now, updatedAt := now }
      let scopes ← orThrow (.failed "UNIQUE constraint failed: workflow_settings.scope_id")
        (store.scopes.insert? scopeId row)
      pure { store with scopes := scopes }

/-! ## The check of the whole history -/

section

variable (sha256 : String → String) (store : SettingsStore)

/-- The accepted changes of a scope, `ORDER BY change_number`. -/
def settingsHistory (scopeId : String) : List SettingsChangeRow :=
  (store.changes.filter fun change => change.scopeId = scopeId).mergeSort fun a b =>
    a.changeNumber ≤ b.changeNumber

/-- The loop of `verifySettingsProjections` over the changes of one scope: the
value, its digest and the number that comes next. -/
def replayChanges (scopeId : String) :
    Json × String × Nat → List SettingsChangeRow → Except StoreError (Json × String × Nat)
  | state, [] => .ok state
  | (current, currentHash, expected), change :: rest => do
      require (change.changeNumber = expected)
        (.failed s!"Workflow settings changes are not contiguous for {scopeId}")
      require (jsonHash sha256 change.before = currentHash)
        (.failed s!"Workflow settings change has a wrong old value for {scopeId}")
      let next ← (applyJsonPatch current change.patch).mapError .failed
      require (jsonHash sha256 next = jsonHash sha256 change.after)
        (.failed s!"Workflow settings change has a wrong new value for {scopeId}")
      replayChanges scopeId (next, jsonHash sha256 next, expected + 1) rest

/-- One scope of `verifySettingsProjections`. -/
def verifyScope (scopeId : String) (row : SettingsScopeRow) : Except StoreError PUnit := do
  let (_, currentHash, expected) ←
    replayChanges sha256 scopeId (row.initial, jsonHash sha256 row.initial, 1)
      (settingsHistory store scopeId)
  require (row.revision = expected - 1 ∧ jsonHash sha256 row.current = currentHash)
    (.failed s!"Workflow settings projection does not match saved changes for {scopeId}")

/-- `verifySettingsProjections`. -/
def verifySettingsProjections (runId : String) : Except StoreError PUnit :=
  (store.scopes.rows.filter fun e => e.2.activeRunId = runId).forM fun e =>
    verifyScope sha256 store e.1 e.2

end

/-! ## Concurrent calls -/

/-- A call that was made, with the code of its settings definition. -/
structure SettingsCall where
  definition : SettingsDefinition
  request : SettingsChangeRequest
  phase : CallPhase

/-- The store and all calls ever made on it, in the order they came. -/
structure SettingsSystem where
  store : SettingsStore
  calls : List SettingsCall

/-- What may happen next: a new call, another turn of a call that waits, or a
write of another part of the store. -/
inductive SettingsAction where
  | change (definition : SettingsDefinition) (request : SettingsChangeRequest)
  | resume (call : Nat) (changeId : String) (now : Int)
  | ensureScope (runId mountPath : String) (invocation : Nat) (settings : Json) (now : Int)
  | runStatus (runId : String) (status : StoredRunStatus)

/-- One turn of the event loop. -/
def settingsStep (sha256 : String → String) (s : SettingsSystem) : SettingsAction → SettingsSystem
  | .change definition request =>
      { s with calls := s.calls ++ [⟨definition, request, startCall sha256 s.store request⟩] }
  | .resume call changeId now =>
      match s.calls[call]? with
      | some ⟨definition, request, .awaiting attempt patch read⟩ =>
          let (store, phase) :=
            resumeCall sha256 s.store definition request attempt patch read changeId now
          { store := store, calls := s.calls.set call ⟨definition, request, phase⟩ }
      | _ => s
  | .ensureScope runId mountPath invocation settings now =>
      match ensureSettingsScope s.store runId mountPath invocation settings now with
      | .ok store => { s with store := store }
      | .error _ => s
  | .runStatus runId status =>
      { s with store := { s.store with runs := Assoc.setKey runId status s.store.runs } }

/-- Any interleaving of turns. -/
def settingsRun (sha256 : String → String) (s : SettingsSystem) (actions : List SettingsAction) :
    SettingsSystem :=
  actions.foldl (settingsStep sha256) s

end PiWorkflows
