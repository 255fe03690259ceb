import Mathlib.Data.List.Sort
import PiWorkflows.Workflows.Engine

/-!
# The limits on steps (`executeGraph` in `workflows/engine.ts`)

Before every attempt on an authored node the loop counts it against the limit of the
workflow, in a counter of its own, and against the limits of the mounts around the node,
on the steps recorded since their latest entry. The counter is rebuilt from the recorded
steps when another process takes the run over, and it goes back by one when a settings
route has to be evaluated again, because its settings were changed before the attempt
could be committed.

A round of the loop is two actions here, the start of the attempt and its end, and a
paused run starts none. How the commit of an attempt went comes with its end. A loop that
throws stands at an error, and only another process goes on with the run.
-/

namespace PiWorkflows

open Fallible

/-- Entries and exits are no steps of an author. -/
def isTransition (workflow : CompiledWorkflow) (nodeId : String) : Bool :=
  hasOwn workflow.entries nodeId || hasOwn workflow.exits nodeId

/-- `countExecutableSteps`. -/
def countExecutableSteps (workflow : CompiledWorkflow) (steps : List StepRecord) : Nat :=
  (steps.filter fun step => !isTransition workflow step.nodeId).length

/-- `nodeId.startsWith(path + "/")`. -/
def isBelow (path nodeId : String) : Bool :=
  (path ++ "/").toList.isPrefixOf nodeId.toList

/-- The attempts that the limit of a mount counts. -/
def countAttemptsBelow (workflow : CompiledWorkflow) (path : String) (steps : List StepRecord) :
    Nat :=
  (steps.filter fun step => isBelow path step.nodeId && !isTransition workflow step.nodeId).length

/-- The steps behind the latest entry of a mount. -/
def stepsSinceEntry (path : String) (steps : List StepRecord) : Option (List StepRecord) :=
  let since := (steps.reverse.takeWhile fun step => decide (step.nodeId ≠ path)).reverse
  if since.length = steps.length then none else some since

/-- The mounts around a node that declare a limit, the outermost first. -/
def limitedScopes (workflow : CompiledWorkflow) (nodeId : String) : List (ScopeMetadata × Nat) :=
  (workflow.scopes.filterMap fun entry =>
    if entry.2.path ≠ "" ∧ isBelow entry.2.path nodeId = true then
      entry.2.maxSteps.map fun limit => (entry.2, limit)
    else none).insertionSort fun a b => a.1.path.length ≤ b.1.path.length

/-- One round of `assertInvocationStepLimit`. -/
def assertScopeLimit (workflow : CompiledWorkflow) (steps : List StepRecord)
    (scope : ScopeMetadata × Nat) : Except String PUnit := do
  let since ← orThrow s!"Workflow include entry is missing: {scope.1.path}"
    (stepsSinceEntry scope.1.path steps)
  require (countAttemptsBelow workflow scope.1.path since < scope.2)
    s!"Included workflow {scope.1.workflowName} at {scope.1.path} exceeded maxSteps={scope.2}"

/-- `assertInvocationStepLimit`. -/
def assertInvocationStepLimit (workflow : CompiledWorkflow) (nodeId : String)
    (steps : List StepRecord) : Except String PUnit := do
  let _ ← (limitedScopes workflow nodeId).mapM (assertScopeLimit workflow steps)
  pure .unit

/-- `MAX_SETTINGS_ROUTE_RETRIES`. -/
def maxSettingsRouteRetries : Nat := 16

/-- `ResumedNodeAttempt`, without the time it has used. -/
structure ResumedAttempt where
  nodeId : String
  attemptId : String
  startedAt : String
  settings : Option SettingsBinding

/-- The loop of a process. `running` says that the attempt of the round has begun. -/
structure GraphLoop where
  execution : Execution
  executedSteps : Int
  settingsRouteRetries : List (String × Nat)
  resumedAttempt : Option ResumedAttempt
  running : Bool

/-- How the commit of an attempt went. Settings that were changed meanwhile come with those
that are bound instead. -/
inductive AttemptCommit where
  | committed
  | stale (latest : Option SettingsBinding)
  | failed (message : String)

inductive LoopAction where
  | pause
  | unpause
  | start (attemptId startedAt : String) (settings : Option SettingsBinding)
  | finish (run : NodeRun) (finishedAt : String) (commit : AttemptCommit)
  | resume (entries : StepRecord → AttemptEntries) (keepsAttempt : Bool)

namespace GraphLoop

/-- A new run. -/
def fresh (workflow : CompiledWorkflow) (runId : String) (input : Json) : GraphLoop where
  execution := .fresh workflow runId input
  executedSteps := 0
  settingsRouteRetries := []
  resumedAttempt := none
  running := false

/-- The loop throws. -/
def stop (loop : GraphLoop) (message : String) : GraphLoop :=
  { loop with execution := { loop.execution with next := .error message }, running := false }

/-- `holdWhilePaused`. -/
def setPaused (loop : GraphLoop) (paused : Bool) : Except String GraphLoop := do
  require (loop.running = false) "An attempt is in flight"
  pure { loop with
    execution := { loop.execution with state := { loop.execution.state with paused } } }

section

variable (sha256 : String → String) (dateParse : String → Option Int)
  (toISOString : Int → String) (workflow : ExecutableWorkflow) (maxSteps : Nat)

/-- The limit of the workflow, or that of the engine. -/
def rootLimit : Nat :=
  workflow.maxSteps.getD maxSteps

/-- The counter after the checks of a round on a node. -/
def countStep (loop : GraphLoop) (nodeId : String) : Except String Int :=
  if isTransition workflow.toCompiledWorkflow nodeId then .ok loop.executedSteps
  else do
    let limit := rootLimit workflow maxSteps
    require (loop.executedSteps + 1 ≤ limit)
      s!"Workflow exceeded maxSteps={limit}; aborting to avoid an unbounded loop"
    assertInvocationStepLimit workflow.toCompiledWorkflow nodeId loop.execution.state.steps
    pure (loop.executedSteps + 1)

/-- The attempt of a round begins, or an earlier one goes on. -/
def beginAttempt (loop : GraphLoop) (nodeId : String) (executedSteps : Int)
    (attemptId startedAt : String) (settings : Option SettingsBinding) :
    Except String GraphLoop := do
  let resumed := loop.resumedAttempt.filter fun attempt => attempt.nodeId = nodeId
  let execution ← startNode workflow loop.execution
    ((resumed.map ResumedAttempt.attemptId).getD attemptId)
    ((resumed.map ResumedAttempt.startedAt).getD startedAt)
    ((resumed.bind ResumedAttempt.settings).or settings)
  pure { loop with execution, executedSteps, resumedAttempt := none, running := true }

/-- The first half of a round. -/
def start (loop : GraphLoop) (attemptId startedAt : String) (settings : Option SettingsBinding) :
    Except String GraphLoop := do
  require (loop.running = false ∧ loop.execution.state.paused = false) "The loop is held"
  match loop.execution.next with
  | .ok (some (.node nodeId)) =>
      match countStep workflow maxSteps loop nodeId with
      | .error message => pure (loop.stop message)
      | .ok executedSteps =>
          beginAttempt workflow loop nodeId executedSteps attemptId startedAt settings
  | _ => .error "Workflow run is over"

/-- Whether an attempt that was not committed is made again. -/
def isRepeatable (loop : GraphLoop) (nodeId : String) : Bool :=
  (workflow.nodes.lookup nodeId).any (fun node => decide (node.nodeType = .compute) &&
    node.settingsRoute) && loop.execution.state.settingsBinding.isSome

/-- The attempt that a state has in flight. -/
def attemptInFlight (state : RunState NodeResult) : Option ResumedAttempt := do
  let nodeId ← state.currentNode
  let attemptId ← state.currentAttemptId
  let startedAt ← state.currentNodeStartedAt
  some ⟨nodeId, attemptId, startedAt, state.settingsBinding⟩

/-- The settings of an attempt were changed before it was committed. -/
def retrySettingsRoute (loop : GraphLoop) (nodeId : String) (latest : Option SettingsBinding) :
    GraphLoop :=
  let retryCount := (loop.settingsRouteRetries.lookup nodeId).getD 0 + 1
  if retryCount > maxSettingsRouteRetries then
    loop.stop
      s!"Settings route {nodeId} changed more than {maxSettingsRouteRetries} times before settlement"
  else
    match latest with
    | none => loop.stop s!"Settings route {nodeId} lost its settings scope"
    | some latest =>
        let state := loop.execution.state
        { execution := { loop.execution with
            state := { state with
              currentSettingsScopeId := some latest.scopeId
              currentSettingsChangeNumber := some latest.changeNumber
              currentSettingsHash := some latest.settingsHash } }
          executedSteps := loop.executedSteps - 1
          settingsRouteRetries := Assoc.setKey nodeId retryCount loop.settingsRouteRetries
          resumedAttempt := (attemptInFlight state).map fun attempt =>
            { attempt with settings := some latest }
          running := false }

/-- The second half of a round. What is not committed is not recorded. -/
def finish (loop : GraphLoop) (run : NodeRun) (finishedAt : String) (commit : AttemptCommit) :
    Except String GraphLoop := do
  require (loop.running = true) "No attempt is in flight"
  let nodeId ← orThrow "No attempt is in flight" loop.execution.state.currentNode
  let execution ← finishNode dateParse workflow loop.execution run finishedAt
  match commit with
  | .committed =>
      pure { loop with
        execution, running := false
        settingsRouteRetries := loop.settingsRouteRetries.filter fun entry => entry.1 ≠ nodeId }
  | .stale latest =>
      if isRepeatable workflow loop nodeId then pure (retrySettingsRoute loop nodeId latest)
      else pure (loop.stop "The settings of the run have changed")
  | .failed message => pure (loop.stop message)

/-- Another process takes the run over. -/
def resume (loop : GraphLoop) (entries : StepRecord → AttemptEntries) (keepsAttempt : Bool) :
    Except String GraphLoop := do
  let execution ←
    resumeRun sha256 dateParse toISOString workflow loop.execution entries keepsAttempt
  pure
    { execution
      executedSteps := countExecutableSteps workflow.toCompiledWorkflow execution.state.steps
      settingsRouteRetries := []
      resumedAttempt := if keepsAttempt then attemptInFlight execution.state else none
      running := false }

def step (loop : GraphLoop) : LoopAction → Except String GraphLoop
  | .pause => loop.setPaused true
  | .unpause => loop.setPaused false
  | .start attemptId startedAt settings => start workflow maxSteps loop attemptId startedAt settings
  | .finish run finishedAt commit => finish dateParse workflow loop run finishedAt commit
  | .resume entries keepsAttempt =>
      resume sha256 dateParse toISOString workflow loop entries keepsAttempt

/-- A run of a workflow over any number of processes. -/
def run (loop : GraphLoop) (actions : List LoopAction) : GraphLoop :=
  Trace.served (step sha256 dateParse toISOString workflow maxSteps) loop actions

end

end GraphLoop

end PiWorkflows
