import PiWorkflows.Lib.Trace
import PiWorkflows.Workflows.Context

/-!
# Walking the graph (`workflows/engine.ts`)

`executeGraph` starts an attempt on the node it stands on, records how it ended
and asks the graph where to go on. Between any two of these the process may stop,
and another one reads the run back from the database and finds out where it
stood (`resumeRun`). A run is any sequence of the three.

What a node runs is the author's, so how it ended is given with the action that
records it; only the generated entry and exit nodes are computed here. An attempt
that is dropped because the run is parked, and one that is started again since
its settings were changed meanwhile, leave the recorded steps as they were: the
first is a start with no end, the second a second start. The limits on steps only
stop a run early, and the status of a run is what the store keeps of it.
-/

namespace PiWorkflows

open Fallible

/-- `WorkflowNodeResult` as the value a switch path reads from. -/
def NodeResult.ref (result : NodeResult) : JsRef :=
  .value (.obj
    ([("attemptId", .str result.attemptId), ("nodeId", .str result.nodeId),
      ("nodeType", .str result.nodeType.text), ("outcome", .str result.outcome.text),
      ("startedAt", .str result.startedAt), ("finishedAt", .str result.finishedAt),
      ("durationMs", result.durationMs)]
    ++ optionalMember "output" result.output
    ++ optionalMember "error" (result.error.map .str)))

/-- How an attempt ended, whoever ran it. A callback that throws is a failure, and
any node may be cut off by its time or by a cancelled run. -/
inductive NodeRun where
  | authored (ending : NodeEnd)
  | entered (callbacks : IncludeCallbacks)
  | left (validate : Option (Option Json → Except String (Option Json)))
  | interrupted (outcome : NodeOutcome) (notOk : outcome ≠ .ok) (error : String)

/-- The end of a generated node. -/
def NodeEnd.ofRun : Except String Json → NodeEnd
  | .ok output => .returned output {}
  | .error message => .threw .failed nofun message none none

/-- The end of the attempt on a node, if that node is one that ends so. -/
def nodeEnd (workflow : CompiledWorkflow) (context : NodeContext) (nodeId : String) :
    NodeRun → Except String NodeEnd
  | .authored ending => do
      require (workflow.entries.lookup nodeId = none ∧ workflow.exits.lookup nodeId = none)
        s!"Workflow node is generated: {nodeId}"
      pure ending
  | .entered callbacks => do
      let entry ← orThrow s!"Workflow node is no entry: {nodeId}" (workflow.entries.lookup nodeId)
      pure (.ofRun (runEntry workflow context entry callbacks))
  | .left validate => do
      let exit ← orThrow s!"Workflow node is no exit: {nodeId}" (workflow.exits.lookup nodeId)
      pure (.ofRun (runExit workflow context exit validate))
  | .interrupted outcome notOk error => pure (.threw outcome notOk error none none)

/-- Where the loop stands: on a node, behind the last one, or stopped by an error. -/
abbrev Standing :=
  Except String (Option RouteTarget)

/-- `resolveNextForOutcome`, where no route means that the run fails with the node. -/
def failureRoute (workflow : CompiledWorkflow) (nodeId : String) (result : NodeResult) :
    Standing := do
  let next ← resolveNextForOutcome workflow.edges nodeId result.ref
  let target ← orThrow (result.error.getD s!"Workflow node failed: {result.nodeId}") next
  pure (some target)

/-- The end of a round of `executeGraph`, `routeAfterFailure` included. -/
def continueAfter (workflow : CompiledWorkflow) (result : NodeResult) : Standing :=
  if result.outcome = .ok then
    resolveNext workflow.edges result.nodeId (.ofOption result.output) result.ref
  else if result.outcome = .cancelled then .error "Workflow run was cancelled"
  else failureRoute workflow result.nodeId result

/-- `resumePointFor`. -/
def resumePointFor (workflow : CompiledWorkflow) (state : RunState NodeResult) : Standing :=
  match state.currentNode with
  | some nodeId => do
      require ((workflow.nodes.lookup nodeId).isSome = true)
        s!"Resume node is missing from the workflow: {nodeId}"
      pure (some (.node nodeId))
  | none =>
      match state.steps.getLast? with
      | none => .ok (some (.node workflow.startAt))
      | some last =>
          match state.results.lookup last.nodeId with
          | none => .ok (some (.node last.nodeId))
          | some result =>
              if result.outcome = .ok then
                resolveNext workflow.edges last.nodeId (.ofOption result.output) result.ref
              else failureRoute workflow last.nodeId result

/-- A run in a process: its input, its state and where its loop stands. -/
structure Execution where
  input : Json
  state : RunState NodeResult
  next : Standing

/-- What a callback is handed before it is projected. -/
def Execution.context (execution : Execution) : NodeContext :=
  ⟨execution.input, execution.state⟩

/-- `createRunState`, and the loop at the start node. -/
def Execution.fresh (workflow : CompiledWorkflow) (runId : String) (input : Json) : Execution where
  input := input
  state := { runId, status := .running }
  next := .ok (some (.node workflow.startAt))

/-- What happens to a run. Another process that takes it over may keep the attempt
it finds in flight. -/
inductive EngineAction where
  | start (attemptId startedAt : String) (settings : Option SettingsBinding)
  | finish (run : NodeRun) (finishedAt : String)
  | resume (entries : StepRecord → AttemptEntries) (keepsAttempt : Bool)

section

variable (sha256 : String → String) (dateParse : String → Option Int)
  (toISOString : Int → String) (workflow : ExecutableWorkflow)

/-- `executeNode` until the node runs. -/
def startNode (execution : Execution) (attemptId startedAt : String)
    (settings : Option SettingsBinding) : Except String Execution := do
  let next ← execution.next
  match next with
  | some (.node nodeId) =>
      let node ← orThrow s!"Workflow node is missing: {nodeId}" (workflow.nodes.lookup nodeId)
      pure { execution with
        state := { execution.state with
          currentNode := some nodeId
          currentAttemptId := some attemptId
          currentNodeStartedAt := some startedAt
          currentSettingsScopeId := settings.map SettingsBinding.scopeId
          currentSettingsChangeNumber := settings.map SettingsBinding.changeNumber
          currentSettingsHash := settings.map SettingsBinding.settingsHash
          statusDetail := node.statusDetail.or execution.state.statusDetail } }
  | some (.inherited name) => .error s!"Workflow node is missing: {name}"
  | none => .error "Workflow run is over"

/-- The settings an attempt in flight is bound to. -/
def RunState.settingsBinding (state : RunState NodeResult) : Option SettingsBinding :=
  match state.currentSettingsScopeId, state.currentSettingsChangeNumber,
      state.currentSettingsHash with
  | some scopeId, some changeNumber, some settingsHash => some ⟨scopeId, changeNumber, settingsHash⟩
  | _, _, _ => none

/-- The end of `executeNode`, `recordAttempt` and the route. -/
def finishNode (execution : Execution) (run : NodeRun) (finishedAt : String) :
    Except String Execution := do
  let nodeId ← orThrow "No attempt is in flight" execution.state.currentNode
  let attemptId ← orThrow "No attempt is in flight" execution.state.currentAttemptId
  let startedAt ← orThrow "No attempt is in flight" execution.state.currentNodeStartedAt
  let ending ← nodeEnd workflow.toCompiledWorkflow execution.context nodeId run
  match hnode : workflow.nodes.lookup nodeId with
  | none => .error s!"Workflow node is missing: {nodeId}"
  | some node =>
      let finished : FinishedAttempt workflow.toCompiledWorkflow :=
        { attemptId, nodeId, node, declared := hnode, startedAt, finishedAt, ending
          settings := execution.state.settingsBinding }
      let attempt := finished.attempt dateParse
      pure { execution with
        state := recordAttempt workflow.toCompiledWorkflow execution.state attempt
        next := continueAfter workflow.toCompiledWorkflow attempt.result }

/-- `resumeRun`: the steps as they come back from the database, and the maps
rebuilt from them. -/
def resumeRun (execution : Execution) (entries : StepRecord → AttemptEntries)
    (keepsAttempt : Bool) : Except String Execution := do
  let rows ← execution.state.steps.mapM fun step => storeStep sha256 dateParse (entries step) step
  let steps ← rows.mapM (readStep toISOString)
  let projection := buildProjection dateParse (createDefinitionSnapshot workflow) steps
  let stored := { execution.state with
    steps, outputs := projection.outputs, results := projection.results, paused := false }
  pure { execution with
    state := if keepsAttempt then stored else clearAttempt stored
    next := resumePointFor workflow.toCompiledWorkflow stored }

/-- One action on a run. -/
def Execution.step (execution : Execution) : EngineAction → Except String Execution
  | .start attemptId startedAt settings => startNode workflow execution attemptId startedAt settings
  | .finish run finishedAt => finishNode dateParse workflow execution run finishedAt
  | .resume entries keepsAttempt =>
      resumeRun sha256 dateParse toISOString workflow execution entries keepsAttempt

/-- A run of a workflow: actions one after another, of which those that do not fit do nothing. -/
def Execution.run (execution : Execution) (actions : List EngineAction) : Execution :=
  Trace.served (Execution.step sha256 dateParse toISOString workflow) execution actions

end

end PiWorkflows
