import PiWorkflows.Lib.Fallible
import PiWorkflows.Workflows.Graph

/-!
# Execution transitions (`workflows/transitions.ts`)

A runner proposes one change at a time and the durable owner of the run applies
it to the projection it has read, or refuses. `applyExecutionTransition` below
is that owner's check, one definition for each kind of proposal, in the order of
the source's `switch`.

Timestamps are texts; `dateParse` is the host's `Date.parse`, with `none` for
`NaN`.
-/

namespace PiWorkflows

open Fallible

/-- `WorkflowNodeDefinition["nodeType"]`. -/
inductive NodeType where
  | agent
  | compute
  | notify
  | action
  | checkpoint
  deriving DecidableEq, Repr

def NodeType.text : NodeType → String
  | .agent => "agent"
  | .compute => "compute"
  | .notify => "notify"
  | .action => "action"
  | .checkpoint => "checkpoint"

/-- `WorkflowRunStatus`. -/
inductive RunStatus where
  | running
  | waiting
  | completed
  | failed
  | timed_out
  | cancelled
  deriving DecidableEq, Repr

def RunStatus.text : RunStatus → String
  | .running => "running"
  | .waiting => "waiting"
  | .completed => "completed"
  | .failed => "failed"
  | .timed_out => "timed_out"
  | .cancelled => "cancelled"

/-- The four outcomes a run can end with. -/
def RunStatus.isTerminal : RunStatus → Bool
  | .running | .waiting => false
  | .completed | .failed | .timed_out | .cancelled => true

/-- `includeTransition` of a compiled node. -/
inductive IncludeTransition where
  | entry
  | exit
  deriving DecidableEq, Repr

/-- `WorkflowNodeSnapshot`, the fields the durable owner reads. -/
structure NodeSnapshot where
  nodeType : NodeType
  statusDetail : Option String := none
  settingsRoute : Bool := false
  humanDecision : Bool := false
  mountPath : Option (List String) := none
  includeTransition : Option IncludeTransition := none
  deriving DecidableEq

/-- `WorkflowDefinitionSnapshot`. The shape check of `schema.ts` refuses a node id
that names a member of `Object.prototype`, so the plain records the program keys
by node id never meet an inherited member. -/
structure DefinitionSnapshot where
  startAt : String
  nodes : List (String × NodeSnapshot)
  edges : List WorkflowEdge
  ownIds : ∀ id ∈ nodes.map Prod.fst, isInheritedName id = false

/-- `WorkflowStepRecord`. An absent `output` is `undefined`. -/
structure StepRecord where
  attemptId : String
  nodeId : String
  nodeType : NodeType
  outcome : NodeOutcome
  startedAt : String
  finishedAt : String
  prompt : Option String := none
  output : Option Json
  error : Option String := none
  action : Option Json := none
  assistantMessage : Option Json := none
  conversation : Option Json := none
  settingsScopeId : Option String := none
  settingsChangeNumber : Option JsNumber := none
  settingsHash : Option String := none
  deriving DecidableEq

/-- A record member that is there only when it has a value. -/
def optionalMember (key : String) (value : Option Json) : List (String × Json) :=
  value.toList.map fun v => (key, v)

/-- The members of a step record as the plain object it is. -/
def StepRecord.members (step : StepRecord) : List (String × Json) :=
  [("attemptId", .str step.attemptId), ("nodeId", .str step.nodeId),
   ("nodeType", .str step.nodeType.text), ("outcome", .str step.outcome.text),
   ("startedAt", .str step.startedAt), ("finishedAt", .str step.finishedAt),
   ("prompt", (step.prompt.map Json.str).getD .null)]
  ++ optionalMember "output" step.output
  ++ optionalMember "error" (step.error.map .str)
  ++ optionalMember "action" step.action
  ++ optionalMember "assistantMessage" step.assistantMessage
  ++ optionalMember "conversation" step.conversation
  ++ optionalMember "settingsScopeId" (step.settingsScopeId.map .str)
  ++ optionalMember "settingsChangeNumber" (step.settingsChangeNumber.map .num)
  ++ optionalMember "settingsHash" (step.settingsHash.map .str)

/-- `WorkflowTraceEventDraft`, without the scope that nothing here reads. -/
structure TraceEventDraft where
  type : String
  nodeId : Option String := none
  attemptId : Option String := none
  payload : List (String × Json) := []

/-- `requestKind` of a `waitForInput` proposal. -/
inductive CheckpointKind where
  | checkpoint
  | decision
  deriving DecidableEq

/-- The kinds of a `WorkflowTransition` with their own fields. -/
inductive TransitionKind where
  | startAttempt (startedAt : String)
  | finishAttempt (step : StepRecord)
  | setTimeout (timeoutMs : Option JsNumber)
  | resume (attemptId : Option String)
  | pause
  | resumeInteraction
  | waitForInput (requestId : String) (requestKind : CheckpointKind) (contract : Json)
  | finish (status : RunStatus) (error : Option String) (finalOutput : Option Json)
  | record

/-- `WorkflowTransition`: one change, never a replacement projection. -/
structure WorkflowTransition where
  event : TraceEventDraft
  kind : TransitionKind

/-- A result record of the projection: the step it came from, spread, with the
duration added. -/
structure ResultRecord where
  step : StepRecord
  durationMs : Json
  deriving DecidableEq

/-- The record as the value a switch path reads from. -/
def ResultRecord.ref (result : ResultRecord) : JsRef :=
  .value (.obj (result.step.members ++ [("durationMs", result.durationMs)]))

/-- `WorkflowRunState`, the fields a transition reads or writes. An optional
field that is absent is `none`; a timeout that is there may still be `null`. The
owner spreads a whole step into a result record, the engine and the store keep
narrower ones, so the type of result records is a parameter. -/
structure RunState (Result : Type := ResultRecord) where
  runId : String
  status : RunStatus
  outputs : List (String × Option Json) := []
  results : List (String × Result) := []
  steps : List StepRecord := []
  currentNode : Option String := none
  currentAttemptId : Option String := none
  currentNodeStartedAt : Option String := none
  currentNodeTimeoutMs : Option (Option JsNumber) := none
  currentNodeElapsedMs : Option JsNumber := none
  currentSettingsScopeId : Option String := none
  currentSettingsChangeNumber : Option JsNumber := none
  currentSettingsHash : Option String := none
  statusDetail : Option String := none
  paused : Bool := false
  waitingOn : Option String := none
  finalOutput : Option Json := none
  error : Option String := none
  finishedAt : Option String := none
  deriving DecidableEq

/-- `definition.nodes[nodeId]`: an own node, or `some none` for an inherited
member, which has no `nodeType` and no `statusDetail`. -/
def DefinitionSnapshot.node? (definition : DefinitionSnapshot) (nodeId : String) :
    Option (Option NodeSnapshot) :=
  match definition.nodes.lookup nodeId with
  | some node => some (some node)
  | none => if isInheritedName nodeId then some none else none

/-- `definition.nodes[nodeId]?.nodeType`. -/
def DefinitionSnapshot.nodeType? (definition : DefinitionSnapshot) (nodeId : String) :
    Option NodeType :=
  (definition.nodes.lookup nodeId).map NodeSnapshot.nodeType

/-- Compare two values of which either may be `undefined`. -/
def sameOutput (a b : Option Json) : Bool :=
  match a, b with
  | some a, some b => isDeepStrictEqual a b
  | none, none => true
  | _, _ => false

/-- `nextNode`: the route out of the last recorded step. -/
def nextNode (definition : DefinitionSnapshot) (state : RunState) :
    Except String (Option RouteTarget) :=
  match state.steps.getLast? with
  | none => .ok (some (.node definition.startAt))
  | some last =>
      match state.results.lookup last.nodeId with
      | none => .error "Accepted graph result is missing"
      | some result =>
          if result.step.outcome = .ok then
            resolveNext definition.edges last.nodeId (.ofOption result.step.output) result.ref
          else resolveNextForOutcome definition.edges last.nodeId result.ref

/-- `requireEvent`. -/
def requireEvent (event : TraceEventDraft) (type : String) : Except String PUnit :=
  require (event.type = type) s!"Transition requires {type}"

/-- `requireIdentity`. -/
def requireIdentity (value : Option String) (name : String) : Except String String := do
  let value ← orThrow s!"Missing {name} identity" value
  require (value ≠ "") s!"Missing {name} identity"
  pure value

/-- `requireAttempt`: the event names the active attempt at the current node. -/
def requireAttempt (state : RunState) (event : TraceEventDraft) : Except String PUnit := do
  let nodeId ← requireIdentity event.nodeId "node"
  let attemptId ← requireIdentity event.attemptId "attempt"
  require (state.currentNode = some nodeId ∧ state.currentAttemptId = some attemptId)
    "Execution transition does not match the active attempt"

/-- `clearAttempt`. -/
def clearAttempt {Result : Type} (state : RunState Result) : RunState Result :=
  { state with
    currentNode := none, currentAttemptId := none, currentNodeStartedAt := none
    currentNodeTimeoutMs := none, currentNodeElapsedMs := none
    currentSettingsScopeId := none, currentSettingsChangeNumber := none
    currentSettingsHash := none, statusDetail := none }

/-- `setSettings`: bind the settings of the attempt, all three fields or none. -/
def setSettings (state : RunState) (payload : List (String × Json)) : Except String RunState :=
  match payload.lookup "settingsScopeId" with
  | some (.str scopeId) =>
      match payload.lookup "settingsChangeNumber", payload.lookup "settingsHash" with
      | some (.num changeNumber), some (.str hash) =>
          .ok { state with
            currentSettingsScopeId := some scopeId
            currentSettingsChangeNumber := some changeNumber
            currentSettingsHash := some hash }
      | _, _ => .error "Attempt settings binding is invalid"
  | _ => .ok { state with
      currentSettingsScopeId := none, currentSettingsChangeNumber := none
      currentSettingsHash := none }

/-- `node.statusDetail` replaces the detail only when the node has one. -/
def withStatusDetail (state : RunState) (node : Option NodeSnapshot) : RunState :=
  match node.bind NodeSnapshot.statusDetail with
  | some detail => { state with statusDetail := some detail }
  | none => state

section

variable (dateParse : String → Option Int)

/-- `case "startAttempt"`. -/
def startAttempt (definition : DefinitionSnapshot) (state : RunState) (event : TraceEventDraft)
    (startedAt : String) : Except String RunState := do
  requireEvent event "node_started"
  let nodeId ← requireIdentity event.nodeId "node"
  let attemptId ← requireIdentity event.attemptId "attempt"
  let node ← orThrow "Attempt node does not match the workflow definition"
    (definition.node? nodeId)
  require (node.map (fun n => Json.str n.nodeType.text) = event.payload.lookup "nodeType")
    "Attempt node does not match the workflow definition"
  require (¬ ∃ step ∈ state.steps, step.attemptId = attemptId)
    "A completed attempt cannot start again"
  require (state.currentAttemptId = none) "Another attempt is already active"
  let route ← nextNode definition state
  require (route = some (.node nodeId)) "Attempt does not follow the accepted graph route"
  require (dateParse startedAt ≠ none) "Invalid attempt time"
  let bound ← setSettings
    { state with
      currentNode := some nodeId, currentAttemptId := some attemptId
      currentNodeStartedAt := some startedAt }
    event.payload
  pure (withStatusDetail bound node)

/-- `Date.parse(finishedAt) - Date.parse(startedAt)`. `NaN` is not JSON; a switch
reads it as the text `NaN`. -/
def durationMs (startedAt finishedAt : String) : Json :=
  match dateParse finishedAt, dateParse startedAt with
  | some finished, some started => .num (.ofInt (finished - started))
  | _, _ => .str "NaN"

/-- The result record a finished step leaves in the projection. -/
def resultRecord (step : StepRecord) : ResultRecord :=
  ⟨step, durationMs dateParse step.startedAt step.finishedAt⟩

/-- `case "finishAttempt"`. -/
def finishAttempt (definition : DefinitionSnapshot) (state : RunState)
    (event : TraceEventDraft) (step : StepRecord) : Except String RunState := do
  requireEvent event (if step.outcome = .ok then "node_finished" else "node_failed")
  requireAttempt state event
  require (event.attemptId = some step.attemptId ∧ event.nodeId = some step.nodeId ∧
      definition.nodeType? step.nodeId = some step.nodeType ∧
      state.currentNodeStartedAt = some step.startedAt ∧
      event.payload.lookup "outcome" = some (.str step.outcome.text) ∧
      sameOutput step.output (some ((event.payload.lookup "output").getD .null)) = true)
    "Attempt result does not match the active request"
  require (¬ ∃ prior ∈ state.steps, prior.attemptId = step.attemptId)
    "Attempt result was already committed"
  pure (clearAttempt
    { state with
      steps := state.steps ++ [step]
      results := Assoc.setKey step.nodeId (resultRecord dateParse step) state.results
      outputs :=
        if step.outcome = .ok then Assoc.setKey step.nodeId step.output state.outputs
        else state.outputs })

end

/-- A number above zero, read off its text. -/
def JsNumber.isPositive (n : JsNumber) : Bool :=
  n.text ≠ "0" && n.text.toList.head? ≠ some '-'

/-- `case "setTimeout"`. -/
def setTimeout (state : RunState) (event : TraceEventDraft) (timeoutMs : Option JsNumber) :
    Except String RunState := do
  requireEvent event "node_timeout_set"
  requireAttempt state event
  require (timeoutMs.all JsNumber.isPositive = true) "Invalid attempt timeout"
  require (state.currentNodeElapsedMs = none) "Attempt timeout was already configured"
  pure { state with
    currentNodeTimeoutMs := some timeoutMs, currentNodeElapsedMs := some (.ofNat 0) }

/-- `case "resume"`: without an attempt id the active attempt is given up. -/
def resume (state : RunState) (event : TraceEventDraft) (attemptId : Option String) :
    Except String RunState := do
  requireEvent event "run_resumed"
  require (attemptId = none ∨ attemptId = state.currentAttemptId)
    "Resume does not name the active attempt"
  let kept := if attemptId = none then clearAttempt state else state
  pure { kept with paused := false }

/-- `case "waitForInput"`. -/
def waitForInput (definition : DefinitionSnapshot) (state : RunState) (event : TraceEventDraft)
    (requestKind : CheckpointKind) : Except String RunState := do
  requireEvent event "checkpoint_requested"
  requireAttempt state event
  require (definition.nodeType? (state.currentNode.getD "") = some .checkpoint)
    "Only a checkpoint can request checkpoint input"
  let nodeId ← requireIdentity event.nodeId "node"
  pure { state with
    status := .waiting, waitingOn := some nodeId
    statusDetail := some (match requestKind with
      | .decision => "waiting for a human decision"
      | .checkpoint => "waiting for checkpoint input")
    finishedAt := none }

/-- `case "resumeInteraction"`. -/
def resumeInteraction (state : RunState) (event : TraceEventDraft) :
    Except String RunState := do
  require (event.type = "interaction_validation_started" ∨ event.type = "interaction_accepted")
    "Invalid interaction resume event"
  require (state.waitingOn = event.nodeId ∧ state.currentAttemptId = event.attemptId)
    "Interaction does not match the waiting attempt"
  let nodeId ← requireIdentity event.nodeId "node"
  pure { state with
    status := .running, currentNode := some nodeId, waitingOn := none
    finishedAt := none, statusDetail := none }

/-- `case "pause"`. -/
def pause (state : RunState) (event : TraceEventDraft) : Except String RunState := do
  requireEvent event "run_paused"
  pure { state with paused := true }

/-- The checks only a completion has to pass. -/
def requireCompletion (definition : DefinitionSnapshot) (state : RunState)
    (finalOutput : Option Json) : Except String PUnit := do
  require (state.currentAttemptId = none) "A run with an unfinished attempt cannot complete"
  let last ← orThrow "Completion does not match the accepted graph result" state.steps.getLast?
  require (last.outcome = .ok) "Completion does not match the accepted graph result"
  let route ← nextNode definition state
  require (route = none ∧ sameOutput finalOutput last.output = true)
    "Completion does not match the accepted graph result"

/-- `case "finish"`. -/
def finish (definition : DefinitionSnapshot) (state : RunState) (event : TraceEventDraft)
    (status : RunStatus) (error : Option String) (finalOutput : Option Json) (now : String) :
    Except String RunState := do
  require (status.isTerminal = true ∧
      (event.type = "run_" ++ status.text ∨
        (event.type = "run_interrupted" ∧ status = .failed)))
    "Run outcome does not match the transition"
  onlyIf (status = .completed) (requireCompletion definition state finalOutput)
  pure (clearAttempt
    { state with
      status := status, finishedAt := some now
      error := error.or state.error, finalOutput := finalOutput.or state.finalOutput })

/-- `recordEvents`. -/
def recordEvents : List String :=
  ["run_started", "include_entered", "include_exited", "settings_route_retried",
   "agent_session_required", "agent_prompt_sent", "interaction_resume_prepared"]

/-- `settings_route_retried` rebinds the settings of the active attempt. -/
def retrySettings (state : RunState) (payload : List (String × Json)) :
    Except String RunState :=
  match payload.lookup "scopeId", payload.lookup "changeNumber" with
  | some (.str scopeId), some (.num changeNumber) =>
      match payload.lookup "settingsHash" with
      | some (.str hash) =>
          .ok { state with
            currentSettingsScopeId := some scopeId
            currentSettingsChangeNumber := some changeNumber
            currentSettingsHash := some hash }
      | _ => .error "Settings retry hash is missing"
  | _, _ => .error "Settings retry binding is invalid"

/-- `case "record"`. -/
def record (state : RunState) (event : TraceEventDraft) : Except String RunState := do
  require (event.type ∈ recordEvents) s!"Unknown execution event: {event.type}"
  onlyIf (event.type = "agent_prompt_sent" ∨ event.type = "agent_session_required")
    (requireAttempt state event)
  let state :=
    if event.type = "agent_session_required" then
      { state with statusDetail := some "waiting for origin Pi session" }
    else state
  if event.type = "settings_route_retried" then retrySettings state event.payload
  else pure state

/-- `applyExecutionTransition`. Only a resumed interaction may find the run
waiting; everything else needs it running. -/
def applyExecutionTransition (dateParse : String → Option Int) (current : RunState)
    (definition : DefinitionSnapshot) (transition : WorkflowTransition) (now : String) :
    Except String RunState := do
  require (current.status = .running ∨
      (current.status = .waiting ∧ transition.kind matches .resumeInteraction))
    s!"Run {current.runId} cannot execute with status {current.status.text}"
  let event := transition.event
  match transition.kind with
  | .startAttempt startedAt => startAttempt dateParse definition current event startedAt
  | .finishAttempt step => finishAttempt dateParse definition current event step
  | .setTimeout timeoutMs => setTimeout current event timeoutMs
  | .resume attemptId => resume current event attemptId
  | .pause => pause current event
  | .resumeInteraction => resumeInteraction current event
  | .waitForInput _ requestKind _ => waitForInput definition current event requestKind
  | .finish status error finalOutput => finish definition current event status error finalOutput now
  | .record => record current event

end PiWorkflows
