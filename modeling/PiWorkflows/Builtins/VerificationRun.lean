import PiWorkflows.Builtins.ChangeVerification
import PiWorkflows.Lib.Fallible
import PiWorkflows.Workflows.Graph

/-!
# The change-verification workflow (`builtins/change-verification.workflow.ts`)

The nodes of the workflow, what each of them makes of the steps recorded so far
and of the answers of its agents and commands, and the walk over its edges. What
the agents answer and what the commands come to is a `World`: at every point of
a run it says how the attempt on a node ends.

The engine keeps the output of a node until the node runs again, and drops it
when that attempt is not ok. So the output of a node is that of its last step
(`outputs`). An answer that the validator of a node refuses goes back to the
agent and leaves the run where it stands. Which plan of checks is accepted is not
modelled: the walk takes any.
-/

namespace PiWorkflows.ChangeVerification

open Fallible

def MAX_REPAIR_ATTEMPTS : Nat := 2

/-- `maxSteps` of the workflow. -/
def maxSteps : Nat := 30

/-- The nodes of the workflow. -/
inductive VerificationNode where
  | selectChecks
  | planChecks
  | runCandidate
  | runBase
  | classify
  | routeRepairReconciliation
  | repairGuard
  | mechanicalRepair
  | semanticRepair
  | reconcileRepair
  | judge
  | planChecksBlocked
  | ready
  | blocked
  deriving DecidableEq, Repr

def VerificationNode.text : VerificationNode → String
  | .selectChecks => "selectChecks"
  | .planChecks => "planChecks"
  | .runCandidate => "runCandidate"
  | .runBase => "runBase"
  | .classify => "classify"
  | .routeRepairReconciliation => "routeRepairReconciliation"
  | .repairGuard => "repairGuard"
  | .mechanicalRepair => "mechanicalRepair"
  | .semanticRepair => "semanticRepair"
  | .reconcileRepair => "reconcileRepair"
  | .judge => "judge"
  | .planChecksBlocked => "planChecksBlocked"
  | .ready => "ready"
  | .blocked => "blocked"

def verificationNodes : List VerificationNode :=
  [.selectChecks, .planChecks, .runCandidate, .runBase, .classify, .routeRepairReconciliation,
    .repairGuard, .mechanicalRepair, .semanticRepair, .reconcileRepair, .judge,
    .planChecksBlocked, .ready, .blocked]

/-- The `edges` of the workflow. -/
def verificationEdges : List WorkflowEdge :=
  [.switch "selectChecks" "$.route" [("run", "runCandidate"), ("plan", "planChecks")],
    .switch "planChecks" "$result.outcome"
      [("ok", "runCandidate"), ("timed_out", "planChecksBlocked"), ("failed", "planChecksBlocked")],
    .plain "planChecksBlocked" "blocked",
    .plain "runCandidate" "runBase",
    .plain "runBase" "classify",
    .switch "classify" "$.route"
      [("ready", "ready"), ("repairable", "repairGuard"), ("needsJudgment", "judge"),
        ("blocked", "blocked")],
    .switch "repairGuard" "$.route"
      [("mechanical", "mechanicalRepair"), ("semantic", "semanticRepair"), ("blocked", "blocked")],
    .plain "mechanicalRepair" "runCandidate",
    .switch "semanticRepair" "$result.outcome"
      [("ok", "runCandidate"), ("timed_out", "reconcileRepair"), ("failed", "reconcileRepair")],
    .switch "reconcileRepair" "$result.outcome"
      [("ok", "routeRepairReconciliation"), ("timed_out", "blocked"), ("failed", "blocked")],
    .switch "routeRepairReconciliation" "$.route"
      [("verify", "runCandidate"), ("retry", "repairGuard"), ("blocked", "blocked")],
    .switch "judge" "$.route" [("ready", "ready"), ("repair", "repairGuard"), ("blocked", "blocked")]]

/-! ## Outputs -/

/-- `VerificationPlan`. -/
structure VerificationPlan where
  checks : List VerificationCheck
  untested : List String

/-- What `runBase` returns. -/
structure BaseRun where
  batch : CommandBatchResult
  baseEvidence : List String
  cleanupEvidence : List String

/-- The `route` of a reconciliation. -/
inductive ReconciliationRoute where
  | verify
  | retry
  | blocked
  deriving DecidableEq, Repr

/-- `RepairReconciliation`. -/
structure RepairReconciliation where
  route : ReconciliationRoute
  commandsSettled : Bool
  evidence : List String
  reason : String

/-- The `route` of a judgment. -/
inductive JudgmentRoute where
  | ready
  | repair
  | blocked
  deriving DecidableEq, Repr

/-- What `parseJudgment` returns. -/
structure Judgment where
  route : JudgmentRoute
  reason : String
  evidence : List String
  result : ChangeVerificationResult

/-- What `repairGuard` returns. -/
inductive GuardOutput where
  | blocked (result : ChangeVerificationResult)
  | mechanical (attempt : Nat) (fingerprint : String)
  | semantic (attempt : Nat) (fingerprint : String)

/-- The output of a node. -/
inductive NodeOutput where
  | selected (planned : Bool)
  | plan (plan : VerificationPlan)
  | candidate (batch : CommandBatchResult)
  | base (run : BaseRun)
  | result (result : ChangeVerificationResult)
  | guarded (guard : GuardOutput)
  | repair (attempt : RepairAttempt)
  | reconciliation (reconciliation : RepairReconciliation)
  | judgment (judgment : Judgment)

def VerificationRoute.text : VerificationRoute → String
  | .ready => "ready"
  | .repairable => "repairable"
  | .needsJudgment => "needsJudgment"
  | .blocked => "blocked"

def ReconciliationRoute.text : ReconciliationRoute → String
  | .verify => "verify"
  | .retry => "retry"
  | .blocked => "blocked"

def JudgmentRoute.text : JudgmentRoute → String
  | .ready => "ready"
  | .repair => "repair"
  | .blocked => "blocked"

def GuardOutput.routeText : GuardOutput → String
  | .blocked _ => "blocked"
  | .mechanical _ _ => "mechanical"
  | .semantic _ _ => "semantic"

/-- The member `route` of an output, which is all that the edges read of it. -/
def NodeOutput.routeText : NodeOutput → Option String
  | .selected planned => some (if planned then "plan" else "run")
  | .result r => some r.route.text
  | .guarded g => some g.routeText
  | .reconciliation r => some r.route.text
  | .judgment j => some j.route.text
  | .plan _ | .candidate _ | .base _ | .repair _ => none

/-- An output as the edges read it. -/
def NodeOutput.ref (output : NodeOutput) : JsRef :=
  .value (.obj (output.routeText.map fun route => ("route", Json.str route)).toList)

/-- A result as the edges read it. -/
def outcomeRef (outcome : NodeOutcome) : JsRef :=
  .value (.obj [("outcome", .str outcome.text)])

/-! ## The steps of a run -/

/-- `WorkflowStepRecord`. -/
structure VerificationStep where
  nodeId : VerificationNode
  outcome : NodeOutcome
  output : Option NodeOutput
  error : Option String

/-- Where a run stands: on a node, behind its last one, or stopped by an error. -/
inductive Position where
  | standing (node : VerificationNode)
  | over (node : VerificationNode)
  | stopped (error : String)

structure VerificationRun where
  input : ChangeVerificationInput
  steps : List VerificationStep
  position : Position

def VerificationRun.fresh (input : ChangeVerificationInput) : VerificationRun where
  input := input
  steps := []
  position := .standing .selectChecks

/-- The last step of a node. -/
def latestStep (steps : List VerificationStep) (node : VerificationNode) :
    Option VerificationStep :=
  steps.reverse.find? fun step => step.nodeId = node

/-- `context.outputs[node]`. -/
def outputs (steps : List VerificationStep) (node : VerificationNode) : Option NodeOutput :=
  (latestStep steps node).bind fun step =>
    if step.outcome = .ok then step.output else none

/-- `context.outputs.planChecks`. -/
def plannedChecks (steps : List VerificationStep) : Option VerificationPlan :=
  match outputs steps .planChecks with
  | some (.plan plan) => some plan
  | _ => none

/-- `context.outputs.runCandidate`. -/
def candidateBatch (steps : List VerificationStep) : Option CommandBatchResult :=
  match outputs steps .runCandidate with
  | some (.candidate batch) => some batch
  | _ => none

/-- `context.outputs.runBase`. -/
def baseRun (steps : List VerificationStep) : Option BaseRun :=
  match outputs steps .runBase with
  | some (.base run) => some run
  | _ => none

/-- `context.outputs.judge`. -/
def judgmentOf (steps : List VerificationStep) : Option Judgment :=
  match outputs steps .judge with
  | some (.judgment judgment) => some judgment
  | _ => none

/-- `context.outputs.repairGuard?.result`. -/
def guardResult (steps : List VerificationStep) : Option ChangeVerificationResult :=
  match outputs steps .repairGuard with
  | some (.guarded (.blocked result)) => some result
  | _ => none

/-- `context.outputs.planChecksBlocked`. -/
def planningResult (steps : List VerificationStep) : Option ChangeVerificationResult :=
  match outputs steps .planChecksBlocked with
  | some (.result result) => some result
  | _ => none

/-- `(context.outputs.reconcileRepair as RepairReconciliation)`. -/
def reconciliationOf (steps : List VerificationStep) : Option RepairReconciliation :=
  match outputs steps .reconcileRepair with
  | some (.reconciliation reconciliation) => some reconciliation
  | _ => none

/-- The step is a repair. -/
def isRepairNode (node : VerificationNode) : Bool :=
  node = .mechanicalRepair || node = .semanticRepair

/-- What `previousRepairAttempts` collects: the attempts, and the fingerprint of the last guard
that let one through. -/
structure RepairHistory where
  attempts : List RepairAttempt
  fingerprint : String

/-- One round of the loop of `previousRepairAttempts`. -/
def RepairHistory.add (history : RepairHistory) (step : VerificationStep) : RepairHistory :=
  let fingerprint :=
    match step.nodeId, step.outcome, step.output with
    | .repairGuard, .ok, some (.guarded (.mechanical _ fingerprint)) => fingerprint
    | .repairGuard, .ok, some (.guarded (.semantic _ fingerprint)) => fingerprint
    | _, _, _ => history.fingerprint
  if isRepairNode step.nodeId then
    match step.outcome, step.output with
    | .ok, some (.repair attempt) => ⟨history.attempts ++ [attempt], fingerprint⟩
    | .ok, _ => ⟨history.attempts, fingerprint⟩
    | .cancelled, _ => ⟨history.attempts, fingerprint⟩
    | outcome, _ =>
        ⟨history.attempts ++ [{
          attempt := history.attempts.length + 1
          kind := if step.nodeId = .semanticRepair then .semantic else .mechanical
          fingerprint := fingerprint
          changedFiles := []
          result := s!"{step.nodeId.text} ended with {outcome.text}; inspect existing work before retrying." }],
          fingerprint⟩
  else ⟨history.attempts, fingerprint⟩

/-- `previousRepairAttempts`. -/
def previousRepairAttempts (steps : List VerificationStep) : List RepairAttempt :=
  (steps.foldl RepairHistory.add ⟨[], ""⟩).attempts

/-- `checksForContext`. -/
def checksForContext (input : ChangeVerificationInput) (steps : List VerificationStep) :
    Except String (List VerificationCheck) :=
  match input.checks.filter (!·.isEmpty) with
  | some checks => .ok checks
  | none =>
      (orThrow "Cannot read properties of undefined (reading 'checks')"
        (plannedChecks steps)).map VerificationPlan.checks

/-- `latestExecution`. -/
def latestExecution (input : ChangeVerificationInput) (steps : List VerificationStep) :
    Except String ExecutionState := do
  let checks ← checksForContext input steps
  let candidate ← orThrow "Cannot read properties of undefined (reading 'items')"
    (candidateBatch steps)
  let base ← orThrow "Cannot read properties of undefined (reading 'batch')" (baseRun steps)
  pure {
    checks := checks
    candidate := candidate
    base := base.batch
    baseEvidence := base.baseEvidence
    cleanupEvidence := base.cleanupEvidence
    repairAttempts := previousRepairAttempts steps }

/-! ## Reading what an agent answers -/

/-- `requireRecord`. -/
def requireRecord (label : String) : Json → Except String (List (String × Json))
  | .obj members => .ok members
  | _ => .error s!"{label} must be an object"

/-- `text.trim()`. -/
def trim (text : String) : String :=
  String.ofList ((text.toList.dropWhile isTrimmed).reverse.dropWhile isTrimmed).reverse

/-- `requireString`. -/
def requireString (label : String) : Option Json → Except String String
  | some (.str text) =>
      if isBlank text then .error s!"{label} must be a non-empty string" else .ok (trim text)
  | _ => .error s!"{label} must be a non-empty string"

/-- `stringArray`. -/
def stringArray (label : String) : Option Json → Except String (List String)
  | none => .ok []
  | some (.arr items) =>
      items.mapM fun
        | .str text => .ok text
        | _ => .error s!"{label} must be an array of strings"
  | some _ => .error s!"{label} must be an array of strings"

/-- The route of a reconciliation in an answer. -/
def reconciliationRoute : Option Json → Except String ReconciliationRoute
  | some (.str "verify") => .ok .verify
  | some (.str "retry") => .ok .retry
  | some (.str "blocked") => .ok .blocked
  | _ => .error "repair reconciliation route must be verify, retry, or blocked"

/-- `parseRepairReconciliation`. -/
def parseRepairReconciliation (value : Json) : Except String RepairReconciliation := do
  let record ← requireRecord "repair reconciliation" value
  let route ← reconciliationRoute (record.lookup "route")
  let commandsSettled ← orThrow "repair reconciliation commandsSettled must be a boolean"
    (boolMember value "commandsSettled")
  require (route = .blocked ∨ commandsSettled = true)
    "Repair cannot continue until previous commands have settled"
  let items ← stringArray "repair reconciliation evidence" (record.lookup "evidence")
  let evidence ← items.mapM fun item =>
    requireString "repair reconciliation evidence item" (some (.str item))
  require (evidence ≠ []) "repair reconciliation needs command disposition evidence"
  let reason ← requireString "repair reconciliation reason" (record.lookup "reason")
  pure { route, commandsSettled, evidence, reason }

/-- The route of a judgment in an answer. -/
def judgmentRoute : Option Json → Except String JudgmentRoute
  | some (.str "ready") => .ok .ready
  | some (.str "repair") => .ok .repair
  | some (.str "blocked") => .ok .blocked
  | _ => .error "verification judgment route must be ready, repair, or blocked"

/-- `parseJudgment`, of the classification at the start of the attempt. -/
def parseJudgment (value : Json) (result : ChangeVerificationResult) : Except String Judgment := do
  let record ← requireRecord "verification judgment" value
  let route ← judgmentRoute (record.lookup "route")
  let reason ← requireString "verification judgment reason" (record.lookup "reason")
  let evidence ← stringArray "verification judgment evidence" (record.lookup "evidence")
  pure { route, reason, evidence, result }

/-- `parseSemanticRepair`, of the attempts and the fingerprint at the start of the attempt. -/
def parseSemanticRepair (value : Json) (attempts : List RepairAttempt) (fingerprint : String) :
    Except String RepairAttempt := do
  let record ← requireRecord "semantic repair" value
  let changedFiles ← stringArray "semantic repair changedFiles" (record.lookup "changedFiles")
  let result ← requireString "semantic repair result" (record.lookup "result")
  pure { attempt := attempts.length + 1, kind := .semantic, fingerprint, changedFiles, result }

/-! ## The nodes -/

section

variable (sha256 : String → String)

/-- `latestClassification`. -/
def latestClassification (input : ChangeVerificationInput) (steps : List VerificationStep) :
    Except String ChangeVerificationResult :=
  let planned := ((plannedChecks steps).map VerificationPlan.untested).getD []
  (latestExecution input steps).map
    (classifyVerification sha256 { input with untested := some (input.untested.getD [] ++ planned) })

/-- `checks.find((check) => check.id === checkId)?.mechanicalFix`. -/
def mechanicalFixOf (checks : List VerificationCheck) (checkId : String) : Option MechanicalFix :=
  (checks.find? fun check => check.id = checkId).bind VerificationCheck.mechanicalFix

/-- `runMechanicalRepair`, with what the fixer changed and what came of it. -/
def mechanicalRepair (input : ChangeVerificationInput) (steps : List VerificationStep)
    (changedFiles : List String) (result : String) : Except String RepairAttempt := do
  let classification ← latestClassification sha256 input steps
  let checks ← checksForContext input steps
  let _ ← orThrow "No mechanical repair is available"
    (classification.relatedFailures.find? fun item =>
      (mechanicalFixOf checks item.checkId).isSome)
  pure {
    attempt := (previousRepairAttempts steps).length + 1
    kind := .mechanical
    fingerprint := classification.failureFingerprint
    changedFiles := changedFiles
    result := result }

/-- A repair that was made for the same failures. -/
def repairRepeated (steps : List VerificationStep) (fingerprint : String) : Bool :=
  steps.any fun step =>
    isRepairNode step.nodeId && step.outcome = .ok &&
      match step.output with
      | some (.repair attempt) => attempt.fingerprint = fingerprint
      | _ => false

/-- `repairGuard`. -/
def repairGuard (input : ChangeVerificationInput) (steps : List VerificationStep) :
    Except String GuardOutput := do
  let classification ← latestClassification sha256 input steps
  let attempts := previousRepairAttempts steps
  let repeated := repairRepeated steps classification.failureFingerprint
  if MAX_REPAIR_ATTEMPTS ≤ attempts.length ∨ repeated = true then
    pure (.blocked { classification with
      route := .blocked
      repairAttempts := attempts
      reason :=
        if repeated then "The failure fingerprint repeated after repair."
        else "The repair attempt limit was reached." })
  else do
    let checks ← checksForContext input steps
    let mechanical := !classification.relatedFailures.isEmpty &&
      classification.relatedFailures.all fun failure =>
        (mechanicalFixOf checks failure.checkId).isSome
    pure (if mechanical then .mechanical (attempts.length + 1) classification.failureFingerprint
      else .semantic (attempts.length + 1) classification.failureFingerprint)

/-- `planChecksBlocked`. -/
def planChecksBlocked (input : ChangeVerificationInput) (steps : List VerificationStep) :
    ChangeVerificationResult :=
  let attempt := latestStep steps .planChecks
  let reason :=
    if attempt.map VerificationStep.outcome = some .timed_out then
      "Verification command planning timed out before a valid plan was accepted."
    else "Verification command planning failed before a valid plan was accepted."
  let error := attempt.bind VerificationStep.error
  let outcome := (attempt.map fun step => step.outcome.text).getD "failed"
  let detail := error.getD reason
  { route := .blocked
    originatingWorkflow := input.originatingWorkflow
    qualifiedNode := input.qualifiedNode
    workspace := input.workspace
    changedFiles := input.changedFiles.getD []
    candidateCommands := none
    baseCommands := none
    relatedFailures := []
    unrelatedFailures := []
    fixedBaselineFailures := []
    unknownFailures := []
    untestedChecks := []
    repairAttempts := []
    failureFingerprint := sha256 s!"{outcome}:{detail}"
    outputReferences := []
    reason := reason
    evidence := [error.getD "No accepted verification command plan is available."] }

/-- The `ready` exit. -/
def readyExit (input : ChangeVerificationInput) (steps : List VerificationStep) :
    Except String ChangeVerificationResult := do
  let result ← latestClassification sha256 input steps
  match judgmentOf steps with
  | none => pure { result with route := .ready }
  | some judgment =>
      pure { result with
        route := .ready
        reason := judgment.reason
        evidence := result.evidence ++ judgment.evidence }

/-- What the `blocked` exit knows of the last reconciliation. -/
inductive ReconciliationState where
  | absent
  | failed
  | answered (reconciliation : RepairReconciliation)

/-- The last step of `reconcileRepair`. -/
def reconciliationState (steps : List VerificationStep) : ReconciliationState :=
  match latestStep steps .reconcileRepair with
  | none => .absent
  | some _ =>
      match reconciliationOf steps with
      | some reconciliation => .answered reconciliation
      | none => .failed

/-- The reason of the `blocked` exit without a guard that blocked. -/
def blockedReason (reconciliation : ReconciliationState) (judgment : Option Judgment)
    (result : ChangeVerificationResult) : String :=
  let judged := (judgment.map Judgment.reason).getD result.reason
  match reconciliation with
  | .failed => "Repair reconciliation did not establish safe command settlement."
  | .answered r => if r.route = .blocked then r.reason else judged
  | .absent => judged

/-- The evidence of a reconciliation. -/
def ReconciliationState.evidence : ReconciliationState → List String
  | .answered r => r.evidence
  | .absent | .failed => []

/-- The `blocked` exit. -/
def blockedExit (input : ChangeVerificationInput) (steps : List VerificationStep) :
    Except String ChangeVerificationResult :=
  match planningResult steps with
  | some planning => .ok planning
  | none => do
      let guard := guardResult steps
      let judgment := judgmentOf steps
      let result ←
        match guard with
        | some result => pure result
        | none => latestClassification sha256 input steps
      let reconciliation := reconciliationState steps
      pure { result with
        route := .blocked
        reason :=
          match guard with
          | some guarded => guarded.reason
          | none => blockedReason reconciliation judgment result
        evidence := result.evidence ++ ((judgment.map Judgment.evidence).getD []) ++
          reconciliation.evidence }

end

/-! ## The walk -/

/-- How an attempt of an agent or a command ends, whatever the node makes of it. -/
inductive AttemptEnd (α : Type) where
  | answered (value : α)
  | interrupted (outcome : NodeOutcome) (notOk : outcome ≠ .ok) (error : String)

/-- What happens outside the workflow, at every point of a run. A fixer leaves the files it has
changed and a text that says what came of it. -/
structure World where
  planChecks : VerificationRun → AttemptEnd VerificationPlan
  runCandidate : VerificationRun → AttemptEnd CommandBatchResult
  runBase : VerificationRun → AttemptEnd BaseRun
  mechanicalRepair : VerificationRun → AttemptEnd (List String × String)
  semanticRepair : VerificationRun → AttemptEnd Json
  reconcileRepair : VerificationRun → AttemptEnd Json
  judge : VerificationRun → AttemptEnd Json

/-- How the attempt on a node ends. -/
inductive NodeEnding where
  | returned (output : NodeOutput)
  | threw (outcome : NodeOutcome) (notOk : outcome ≠ .ok) (error : String)

theorem failed_ne_ok : NodeOutcome.failed ≠ .ok := by decide

theorem timed_out_ne_ok : NodeOutcome.timed_out ≠ .ok := by decide

/-- A node that throws. -/
def NodeEnding.failure (message : String) : NodeEnding :=
  .threw .failed failed_ne_ok message

/-- The end of a node that only computes. -/
def NodeEnding.ofExcept (result : Except String NodeOutput) : NodeEnding :=
  match result with
  | .ok output => .returned output
  | .error message => .failure message

/-- The end of an attempt whose answer is the output of the node. -/
def AttemptEnd.ending {α : Type} (output : α → NodeOutput) : AttemptEnd α → NodeEnding
  | .answered value => .returned (output value)
  | .interrupted outcome notOk error => .threw outcome notOk error

/-- The end of an attempt whose answer has to pass the validator of the node. -/
def AttemptEnd.validated {α : Type} (validate : α → Except String NodeOutput) :
    AttemptEnd α → Option NodeEnding
  | .answered value => (validate value).toOption.map .returned
  | .interrupted outcome notOk error => some (.threw outcome notOk error)

section

variable (sha256 : String → String) (world : World)

/-- The end of the attempt on a node, if it has ended. -/
def nodeEnding (run : VerificationRun) : VerificationNode → Option NodeEnding
  | .selectChecks =>
      some (.returned (.selected (run.input.checks.filter (!·.isEmpty)).isNone))
  | .planChecks => some ((world.planChecks run).ending .plan)
  | .runCandidate =>
      some (match checksForContext run.input run.steps with
        | .ok _ => (world.runCandidate run).ending .candidate
        | .error message => .failure message)
  | .runBase =>
      some (match checksForContext run.input run.steps with
        | .ok _ => (world.runBase run).ending .base
        | .error message => .failure message)
  | .classify =>
      some (.ofExcept ((latestClassification sha256 run.input run.steps).map .result))
  | .routeRepairReconciliation =>
      some (.ofExcept ((orThrow "Workflow switch value must be scalar for $.route"
        (reconciliationOf run.steps)).map .reconciliation))
  | .repairGuard => some (.ofExcept ((repairGuard sha256 run.input run.steps).map .guarded))
  | .mechanicalRepair =>
      some (match world.mechanicalRepair run with
        | .answered outcome =>
            .ofExcept ((mechanicalRepair sha256 run.input run.steps outcome.1 outcome.2).map .repair)
        | .interrupted outcome notOk error => .threw outcome notOk error)
  | .semanticRepair =>
      (world.semanticRepair run).validated fun value => do
        let classification ← latestClassification sha256 run.input run.steps
        let attempt ← parseSemanticRepair value (previousRepairAttempts run.steps)
          classification.failureFingerprint
        pure (.repair attempt)
  | .reconcileRepair =>
      (world.reconcileRepair run).validated fun value =>
        (parseRepairReconciliation value).map .reconciliation
  | .judge =>
      (world.judge run).validated fun value => do
        let classification ← latestClassification sha256 run.input run.steps
        let judgment ← parseJudgment value classification
        pure (.judgment judgment)
  | .planChecksBlocked => some (.returned (.result (planChecksBlocked sha256 run.input run.steps)))
  | .ready => some (.ofExcept ((readyExit sha256 run.input run.steps).map .result))
  | .blocked => some (.ofExcept ((blockedExit sha256 run.input run.steps).map .result))

/-- The position that a route leads to. -/
def positionOf (node : VerificationNode) : Except String (Option RouteTarget) → Position
  | .ok (some (.node nodeId)) =>
      match verificationNodes.find? fun next => next.text = nodeId with
      | some next => .standing next
      | none => .stopped s!"Workflow node is missing: {nodeId}"
  | .ok (some (.inherited name)) => .stopped s!"Workflow node is missing: {name}"
  | .ok none => .over node
  | .error message => .stopped message

/-- Where the run goes on after a node (`executeGraph`, `routeAfterFailure`). -/
def positionAfter (node : VerificationNode) : NodeEnding → Position
  | .returned output =>
      positionOf node (resolveNext verificationEdges node.text output.ref (outcomeRef .ok))
  | .threw outcome _ error =>
      if outcome = .cancelled then .stopped "Workflow run was cancelled"
      else match resolveNextForOutcome verificationEdges node.text (outcomeRef outcome) with
        | .ok none => .stopped error
        | route => positionOf node route

/-- The step that an attempt leaves (`recordAttempt`). -/
def NodeEnding.step (node : VerificationNode) : NodeEnding → VerificationStep
  | .returned output => ⟨node, .ok, some output, none⟩
  | .threw outcome _ error => ⟨node, outcome, none, some error⟩

/-- One attempt on the node where the run stands. -/
def VerificationRun.next (run : VerificationRun) : VerificationRun :=
  match run.position with
  | .standing node =>
      match nodeEnding sha256 world run node with
      | some ending =>
          { run with steps := run.steps ++ [ending.step node], position := positionAfter node ending }
      | none => run
  | _ => run

/-- A run after a number of attempts. -/
def walk (input : ChangeVerificationInput) : Nat → VerificationRun
  | 0 => .fresh input
  | n + 1 => (walk input n).next sha256 world

end

end PiWorkflows.ChangeVerification
