import PiWorkflows.State.Schema
import PiWorkflows.Workflows.Validation

/-!
# Two projections of one run (`workflows/engine.ts`, `workflows/store.ts`)

While a run executes, the engine keeps the latest output and result of each node
in memory (`recordAttempt`). When a run is read back, the store rebuilds the
same two maps from the steps in the database (`buildRunState`). This file has
both folds, the way a step goes into its row, and the way it comes out again.

Only what the folds read is here: the attempt as `executeNode` hands it over,
the step record and its row. JSON that has been through the database comes back
with its names in canonical order, which is `normalizeJson`.
-/

namespace PiWorkflows

open Fallible

/-! ## The stored snapshot -/

/-- The innermost scope around a node id: the longest path it stands under. -/
def innermostScope (workflow : CompiledWorkflow) (nodeId : String) : Option ScopeMetadata :=
  (workflow.scopes.map Prod.snd).foldl
    (fun best scope =>
      if scope.path ≠ "" ∧ (scope.path ++ "/").toList.isPrefixOf nodeId.toList then
        match best with
        | some other => if other.path.length < scope.path.length then some scope else best
        | none => some scope
      else best)
    none

/-- `snapshotNode`. A node that is an entry and an exit at once would be read as
an entry. -/
def snapshotNode (workflow : CompiledWorkflow) (nodeId : String) (node : AuthoredNode) :
    NodeSnapshot :=
  let entry := workflow.entries.lookup nodeId
  let exit := workflow.exits.lookup nodeId
  let mountPath :=
    ((entry.map EntryMetadata.mountPath).or (exit.map ExitMetadata.mountPath)).or
      ((innermostScope workflow nodeId).map ScopeMetadata.path)
  { nodeType := node.nodeType
    statusDetail := node.statusDetail
    settingsRoute := node.settingsRoute
    mountPath := mountPath.map (splitText '/')
    includeTransition :=
      if entry.isSome then some .entry
      else if exit.isSome then some .exit
      else none }

/-- `createDefinitionSnapshot`. -/
def createDefinitionSnapshot (workflow : ExecutableWorkflow) : DefinitionSnapshot where
  startAt := workflow.startAt
  nodes := workflow.nodes.map fun node =>
    (node.1, snapshotNode workflow.toCompiledWorkflow node.1 node.2)
  edges := workflow.edges
  ownIds := by
    intro id hid
    rw [List.map_map] at hid
    exact workflow.ownIds id hid

/-! ## The live side -/

/-- `WorkflowNodeResult`. -/
structure NodeResult where
  attemptId : String
  nodeId : String
  nodeType : NodeType
  outcome : NodeOutcome
  startedAt : String
  finishedAt : String
  durationMs : Json
  output : Option Json := none
  error : Option String := none
  deriving DecidableEq

/-- `NodeExecution` beside its output. -/
structure NodeExecution where
  promptText : Option String := none
  action : Option Json := none
  assistantMessage : Option Json := none
  conversation : Option Json := none

/-- The settings an attempt was bound to. -/
structure SettingsBinding where
  scopeId : String
  changeNumber : JsNumber
  settingsHash : String

/-- `NodeAttempt`. -/
structure NodeAttempt where
  result : NodeResult
  execution : NodeExecution
  settings : Option SettingsBinding := none

/-- How the node of an attempt ended: with an output, which `runNodeWithTimeout`
has made defined, or with an error and the outcome the error stands for. -/
inductive NodeEnd where
  | returned (output : Json) (execution : NodeExecution)
  | threw (outcome : NodeOutcome) (notOk : outcome ≠ .ok) (error : String)
      (promptText : Option String) (action : Option Json)

/-- An attempt of a compiled node, from its start to its end. -/
structure FinishedAttempt (workflow : CompiledWorkflow) where
  attemptId : String
  nodeId : String
  node : AuthoredNode
  declared : workflow.nodes.lookup nodeId = some node
  startedAt : String
  finishedAt : String
  ending : NodeEnd
  settings : Option SettingsBinding := none

section

variable (dateParse : String → Option Int)

/-- `createNodeResult`. -/
def createNodeResult (nodeId : String) (nodeType : NodeType) (attemptId startedAt : String)
    (outcome : NodeOutcome) (output : Option Json) (finishedAt : String) : NodeResult :=
  { attemptId, nodeId, nodeType, outcome, startedAt, finishedAt
    durationMs := durationMs dateParse startedAt finishedAt, output }

/-- What `executeNode` returns for a finished attempt. -/
def FinishedAttempt.attempt {workflow : CompiledWorkflow} (a : FinishedAttempt workflow) :
    NodeAttempt :=
  match a.ending with
  | .returned output execution =>
      { result := createNodeResult dateParse a.nodeId a.node.nodeType a.attemptId a.startedAt .ok
          (some output) a.finishedAt
        execution, settings := a.settings }
  | .threw outcome _ error promptText action =>
      { result :=
          { createNodeResult dateParse a.nodeId a.node.nodeType a.attemptId a.startedAt outcome
              none a.finishedAt with error := some error }
        execution := { promptText, action }, settings := a.settings }

end

/-- The step `recordAttempt` appends. -/
def stepOfAttempt (attempt : NodeAttempt) : StepRecord where
  attemptId := attempt.result.attemptId
  nodeId := attempt.result.nodeId
  nodeType := attempt.result.nodeType
  outcome := attempt.result.outcome
  startedAt := attempt.result.startedAt
  finishedAt := attempt.result.finishedAt
  prompt := attempt.execution.promptText
  output := some (attempt.result.output.getD .null)
  error := attempt.result.error
  action := attempt.execution.action
  assistantMessage := attempt.execution.assistantMessage
  conversation := attempt.execution.conversation
  settingsScopeId := attempt.settings.map SettingsBinding.scopeId
  settingsChangeNumber := attempt.settings.map SettingsBinding.changeNumber
  settingsHash := attempt.settings.map SettingsBinding.settingsHash

/-- `WorkflowEngine.recordAttempt`. -/
def recordAttempt (workflow : CompiledWorkflow) (state : RunState NodeResult)
    (attempt : NodeAttempt) : RunState NodeResult :=
  let result := attempt.result
  let results := Assoc.setKey result.nodeId result state.results
  let outputs :=
    if result.outcome = .ok then Assoc.setKey result.nodeId result.output state.outputs
    else Assoc.eraseKey result.nodeId state.outputs
  let exit := workflow.exits.lookup result.nodeId
  let (results, outputs) :=
    match exit with
    | some exit =>
        if result.outcome = .ok then
          (Assoc.setKey exit.mountPath { result with nodeId := exit.mountPath } results,
            Assoc.setKey exit.mountPath result.output outputs)
        else (results, outputs)
    | none => (results, outputs)
  clearAttempt
    { state with results, outputs, steps := state.steps ++ [stepOfAttempt attempt] }

/-! ## Rows -/

/-- `outcomeStatus`. -/
def outcomeStatus : NodeOutcome → AttemptStatus
  | .ok => .completed
  | .timed_out => .timed_out
  | .cancelled => .cancelled
  | .failed => .failed

/-- `outcomeForStatus`. -/
def outcomeForStatus : AttemptStatus → Except String NodeOutcome
  | .completed => .ok .ok
  | .timed_out => .ok .timed_out
  | .cancelled => .ok .cancelled
  | .failed => .ok .failed
  | .pending | .running | .waiting | .interrupted =>
      .error "Workflow step has nonterminal status"

/-- `StoredAttemptReceipt`. -/
structure AttemptReceipt where
  action : Option Json
  assistantMessage : Option Json

/-- `StepRow`: a step with its attempt and the session entries linked to it. Blob
columns hold what `readJson` or `readText` returns for them, an entry column the
text read out of the entry. -/
structure StepRow where
  attemptId : String
  nodeId : String
  nodeType : NodeType
  status : AttemptStatus
  prompt : Option String
  output : Option Json
  receipt : AttemptReceipt
  error : Option String
  promptEntry : Option (Option String)
  responseEntry : Option String
  conversation : Option Json
  settingsScopeId : Option String
  settingsChangeNumber : Option JsNumber
  settingsHash : Option String
  startedAt : Int
  finishedAt : Int

/-- The session entries the store finds for a step: the prompt entry it looks up
by the attempt, the entry the assistant message names, and whether the ends of
the conversation are stored. -/
structure AttemptEntries where
  prompt : Option (Option String) := none
  response : Option String := none
  conversation : Bool := false

section

variable (sha256 : String → String) (dateParse : String → Option Int)
  (toISOString : Int → String)

/-- The `sha256` an assistant message receipt claims for its text. -/
def receiptDigest (assistantMessage : Option Json) : Option Json :=
  assistantMessage.bind fun receipt => receipt.member? "sha256"

/-- `syncNodeAttempts` for one step: the row it leaves behind. An output that a
linked response entry holds already is not stored a second time, and the entry
must say the same as the step. -/
def storeStep (entries : AttemptEntries) (step : StepRecord) : Except String StepRow := do
  let startedAt ← orThrow "started_at must be an integer" (dateParse step.startedAt)
  let finishedAt ← orThrow "finished_at must be an integer" (dateParse step.finishedAt)
  let response := step.assistantMessage.bind fun _ => entries.response
  require
    (∀ text ∈ response, step.output.map canonicalJson = some (canonicalJson (.str text)) ∧
      receiptDigest step.assistantMessage = some (.str (sha256 text)))
    s!"Assistant response entry conflicts with attempt {step.attemptId}"
  pure
    { attemptId := step.attemptId, nodeId := step.nodeId, nodeType := step.nodeType
      status := outcomeStatus step.outcome
      prompt := if entries.prompt.isSome then none else step.prompt
      output := if response.isSome then none else step.output.map normalizeJson
      receipt := ⟨step.action.map normalizeJson, step.assistantMessage.map normalizeJson⟩
      error := step.error
      promptEntry := entries.prompt
      responseEntry := response
      conversation := if entries.conversation then step.conversation else none
      settingsScopeId := step.settingsScopeId
      settingsChangeNumber := step.settingsChangeNumber
      settingsHash := step.settingsHash
      startedAt, finishedAt }

/-- `savedStepSettingsBinding`: all three columns or none. -/
def requireSettingsBinding (row : StepRow) : Except String PUnit :=
  require
    ((row.settingsScopeId.isSome = row.settingsChangeNumber.isSome) ∧
      row.settingsChangeNumber.isSome = row.settingsHash.isSome)
    "Saved workflow step settings binding is incomplete"

/-- Where `mapStepRows` finds the output of a row. -/
def StepRow.readOutput (row : StepRow) : Json :=
  match row.output with
  | some output => output
  | none => (row.responseEntry.map Json.str).getD .null

/-- The step record `mapStepRows` makes of a row. -/
def StepRow.step (row : StepRow) (outcome : NodeOutcome) : StepRecord where
  attemptId := row.attemptId
  nodeId := row.nodeId
  nodeType := row.nodeType
  outcome := outcome
  startedAt := toISOString row.startedAt
  finishedAt := toISOString row.finishedAt
  prompt := row.promptEntry.getD row.prompt
  output := some row.readOutput
  error := row.error
  action := row.receipt.action
  assistantMessage := row.receipt.assistantMessage
  conversation := row.conversation
  settingsScopeId := row.settingsScopeId
  settingsChangeNumber := row.settingsChangeNumber
  settingsHash := row.settingsHash

/-- `mapStepRows` for one row. -/
def readStep (row : StepRow) : Except String StepRecord := do
  let outcome ← outcomeForStatus row.status
  requireSettingsBinding row
  pure (row.step toISOString outcome)

end

/-! ## The stored side -/

/-- The two maps of a projection. -/
structure Projection where
  outputs : List (String × Option Json) := []
  results : List (String × NodeResult) := []
  deriving DecidableEq

section

variable (dateParse : String → Option Int)

/-- `resultForStep`. -/
def resultForStep (step : StepRecord) : NodeResult where
  attemptId := step.attemptId
  nodeId := step.nodeId
  nodeType := step.nodeType
  outcome := step.outcome
  startedAt := step.startedAt
  finishedAt := step.finishedAt
  durationMs := durationMs dateParse step.startedAt step.finishedAt
  output := if step.outcome = .ok then step.output else none
  error := step.error

/-- The mount path an exit node stands for in the stored snapshot. -/
def exitMountPath (snapshot : DefinitionSnapshot) (nodeId : String) : Option String :=
  match snapshot.nodes.lookup nodeId with
  | some node =>
      if node.includeTransition = some .exit then node.mountPath.map (joinText '/') else none
  | none => none

/-- One round of the loop in `buildRunState`. -/
def projectStep (snapshot : DefinitionSnapshot) (acc : Projection) (step : StepRecord) :
    Projection :=
  let result := resultForStep dateParse step
  let results := Assoc.setKey step.nodeId result acc.results
  let outputs :=
    if step.outcome = .ok then Assoc.setKey step.nodeId step.output acc.outputs
    else Assoc.eraseKey step.nodeId acc.outputs
  match exitMountPath snapshot step.nodeId with
  | some mountPath =>
      if step.outcome = .ok then
        { results := Assoc.setKey mountPath { result with nodeId := mountPath } results
          outputs := Assoc.setKey mountPath step.output outputs }
      else { results, outputs }
  | none => { results, outputs }

/-- The maps `buildRunState` rebuilds from the steps it is given. -/
def buildProjection (snapshot : DefinitionSnapshot) (steps : List StepRecord) : Projection :=
  steps.foldl (projectStep dateParse snapshot) {}

end

end PiWorkflows
