import PiWorkflows.Workflows.Projection
import PiWorkflows.Workflows.Queue
import PiWorkflows.Workflows.Requests

/-!
# Commits of the engine (`workflows/store.ts`, `server/server.ts`)

The engine changes a run by a transition, and `commitTransition` is the
transaction that applies it: it checks the authority of the caller and the
revision, applies the transition to the projection of the run, and writes every
table the new projection shows in. In the server the same transaction then moves
the queue entry along (`applyLifecycleProjection`), if the server is running the
run.

The steps of a run with their outputs and results and the settings of its
attempt are in tables that are left out; a commit is given what they hold. It is
also given the check of a human decision's own digests. Events, viewer deltas and
messages are left out.
-/

namespace PiWorkflows

open Fallible

/-- The host's `Date.parse` and `toISOString`. -/
structure HostDates where
  parse : String → Option Int
  text : Int → String

/-! ## Authority -/

/-- `RunWriteAuthority`. -/
structure RunWriteAuthority where
  ownerType : OwnerType
  ownerId : String
  token : String
  generation : Nat
  leaseMs : Option Int := none

/-- The message of `ClaimLostError`. -/
def claimLost (runId reason : String) : String :=
  s!"Workflow run claim lost ({reason}): {runId}"

/-- What a call of the store brings: what its `authorityProvider` answers for the
run, if it has one, and the revision it has seen. -/
structure StoreContext where
  authority : Option (Option RunWriteAuthority) := none
  revision : Nat

/-- `assertWriteAuthority`: a lease that is held is renewed on the way. -/
def assertWriteAuthority (sha256 : String → String) (db : Db) (runId : String)
    (context : StoreContext) (now : Int) : Except String Db := do
  let run ← orThrow s!"Workflow run is missing: {runId}" (db.runs.get? runId)
  let lease ← orThrow "Workflow run lease is missing" (db.leases.get? runId)
  let renewed ←
    if lease.owner.isSome = true ∨ context.authority.isSome = true then do
      let authority ← orThrow (claimLost runId "missingAuthority") context.authority.join
      let owner ← orThrow (claimLost runId "expired") lease.owner
      require (now < owner.expiresAt) (claimLost runId "expired")
      require (authority.ownerType = owner.type ∧ authority.ownerId = owner.id)
        (claimLost runId "ownerChanged")
      require (owner.tokenHash = sha256 authority.token) (claimLost runId "tokenChanged")
      require (authority.generation = lease.generation) (claimLost runId "generationChanged")
      let leaseMs := authority.leaseMs.getD 30000
      require (0 < leaseMs) "Workflow run authority lease duration must be a positive integer"
      pure (db.updateLease runId fun lease =>
        { lease with owner := some { owner with heartbeatAt := now, expiresAt := now + leaseMs } })
    else pure db
  require (run.revision = context.revision)
    s!"Workflow run revision conflict: expected {context.revision}, got {run.revision}"
  pure renewed

/-- Only a lease can have changed. -/
theorem assertWriteAuthority_leases {sha256 : String → String} {db authorized : Db} {runId : String}
    {context : StoreContext} {now : Int}
    (h : assertWriteAuthority sha256 db runId context now = .ok authorized) :
    ∃ leases, authorized = { db with leases := leases } := by
  unfold assertWriteAuthority at h
  simp only [bind_ok] at h
  obtain ⟨run, -, lease, -, h⟩ := h
  split at h
  · simp only [bind_ok, pure_ok] at h
    obtain ⟨authority, -, owner, -, _, -, _, -, _, -, _, -, _, -, _, rfl, _, -, rfl⟩ := h
    exact ⟨_, rfl⟩
  · simp only [bind_ok, pure_ok] at h
    obtain ⟨_, rfl, _, -, rfl⟩ := h
    exact ⟨_, rfl⟩

/-! ## The projection of a run -/

/-- The status of a run that has started. -/
def StoredRunStatus.runStatus? : StoredRunStatus → Option RunStatus
  | .queued => none
  | .running => some .running
  | .waiting => some .waiting
  | .completed => some .completed
  | .failed => some .failed
  | .timed_out => some .timed_out
  | .cancelled => some .cancelled

def RunStatus.stored : RunStatus → StoredRunStatus
  | .running => .running
  | .waiting => .waiting
  | .completed => .completed
  | .failed => .failed
  | .timed_out => .timed_out
  | .cancelled => .cancelled

/-- `readActiveAttempt`. -/
def readActiveAttempt (db : Db) (runId : String) : Option (String × AttemptRow) :=
  db.attempts.find? fun _ attempt => attempt.runId = runId ∧ attempt.status.isOpen = true

/-- `materializeRunState`, on top of what the tables of steps and settings hold. -/
def materializeRunState (dates : HostDates) (db : Db) (runId : String) (run : RunRow)
    (saved : RunState) : Except String RunState := do
  let status ← orThrow s!"Run {runId} cannot execute with status queued" run.status.runStatus?
  let active := if status.isTerminal then none else readActiveAttempt db runId
  let timeoutMs := active.bind fun e => e.2.timeoutMs
  pure { saved with
    runId := runId, status := status
    currentNode := if status = .running then active.map fun e => e.2.nodeId else none
    currentAttemptId := active.map Prod.fst
    currentNodeStartedAt := (active.bind fun e => e.2.startedAt).map dates.text
    currentNodeTimeoutMs := timeoutMs.map fun ms => if ms = 0 then none else some (.ofNat ms)
    currentNodeElapsedMs := timeoutMs.bind fun _ => active.map fun e => .ofNat (activeTime db e.1)
    statusDetail := run.statusDetail, paused := run.paused
    waitingOn :=
      if status = .waiting then
        (active.map fun e => e.2.nodeId).or (saved.steps.getLast?.map StepRecord.nodeId)
      else none
    finalOutput := run.finalOutput, error := run.error
    finishedAt := run.finishedAt.map dates.text }

/-! ## Writing a projection -/

section

variable (sha256 : String → String) (dates : HostDates) (db : Db) (state : RunState) (now : Int)

/-- `resourceIdFor`. -/
def resourceIdFor (resourceType aggregateKey : String) : String :=
  let digest := sha256 (resourceType ++ "\x00" ++ aggregateKey)
  s!"{resourceType}-{String.ofList (digest.toList.take 40)}"

/-- `workflowEffectId`. -/
def workflowEffectId (sourceResourceId effectType idempotencyKey : String) : String :=
  let digest := sha256 (sourceResourceId ++ "\x00" ++ effectType ++ "\x00" ++ idempotencyKey)
  s!"effect-{String.ofList (digest.toList.take 40)}"

/-- The effect that asks the queue to follow the run into its status. -/
def settlementEffectType (status : RunStatus) : String :=
  if status = .waiting then "run.park_queue" else "run.settle_queue"

/-- The key of that effect. -/
def settlementEffectId : String :=
  workflowEffectId sha256 (resourceIdFor sha256 "run" state.runId)
    (settlementEffectType state.status) s!"{state.runId}:{state.status.text}"

/-- `enqueueRunSettlementEffect`. -/
def enqueueRunSettlementEffect (sourceRevision : Nat) : Db :=
  if (db.runQueue.get? state.runId).isNone then db
  else
    let effect : EffectRow :=
      { sourceRun := some state.runId, sourceRevision := sourceRevision
        effectType := settlementEffectType state.status
        idempotencyKey := s!"{state.runId}:{state.status.text}"
        payload := .obj [("runId", .str state.runId), ("status", .str state.status.text)]
        ownerScope := .run, status := .pending, attemptCount := 0, createdAt := now
        updatedAt := now }
    -- An effect that is there already stays as it is.
    { db with
      effects := (db.effects.insert? (settlementEffectId sha256 state) effect).getD db.effects }

/-- `persistRunState`. -/
def persistRunState (previous : StoredRunStatus) (revision : Nat) : Db :=
  let written := (db.bumpRun state.runId).updateRun state.runId fun run =>
    { run with
      status := state.status.stored, paused := state.paused, statusDetail := state.statusDetail
      finalOutput := state.finalOutput, error := state.error, updatedAt := now
      finishedAt := state.finishedAt.bind dates.parse }
  let closed :=
    if state.paused = true ∨ state.status ∈ [RunStatus.completed, .failed, .cancelled] then
      written.closeRunTime state.runId
    else written
  if state.status ≠ .running ∧ state.status.stored ≠ previous then
    enqueueRunSettlementEffect sha256 closed state now revision
  else closed

/-- `transitionFollowUpsForRunState`. -/
def transitionFollowUpsForRunState : Db :=
  if state.status ∈ [RunStatus.running, .waiting, .completed] then db
  else
    { db with
      followUps := db.followUps.updateWhere
        (fun _ followUp => followUp.runId = state.runId ∧ followUp.status = .queued)
        fun followUp =>
          { followUp with
            status := .cancelled
              (state.error.getD s!"Workflow ended with status {state.status.text}")
            updatedAt := now } }

/-- `nextAttemptNumber`. -/
def nextAttemptNumber (runId nodeId : String) : Nat :=
  let numbers := (db.attempts.rows.filter fun e =>
    e.2.runId = runId ∧ e.2.nodeId = nodeId).map fun e => e.2.attemptNumber
  numbers.foldl max 0 + 1

/-- The row of an attempt that a step tells about. -/
def syncStep (db : Db) (step : StepRecord) : Db :=
  let closed := db.closeAttemptTime step.attemptId
  let finish := fun attempt : AttemptRow =>
    { attempt with
      status := outcomeStatus step.outcome, error := step.error
      finishedAt := dates.parse step.finishedAt, updatedAt := now }
  let missing : AttemptRow :=
    { runId := state.runId, nodeId := step.nodeId
      attemptNumber := nextAttemptNumber closed state.runId step.nodeId
      status := outcomeStatus step.outcome, error := step.error
      startedAt := dates.parse step.startedAt, finishedAt := dates.parse step.finishedAt
      updatedAt := now }
  { closed with
    attempts :=
      (closed.attempts.insert? step.attemptId missing).getD
        (closed.attempts.update step.attemptId finish) }

/-- `ensureAttempt`. -/
def ensureAttempt (nodeId attemptId : String) : Db :=
  let status : AttemptStatus := if state.status = .waiting then .waiting else .running
  match db.attempts.get? attemptId with
  | some _ =>
      { db with
        attempts := db.attempts.update attemptId fun attempt =>
          { attempt with status := status, updatedAt := now } }
  | none =>
      let retired := db.attempts.updateWhere
        (fun _ attempt => attempt.runId = state.runId ∧ attempt.status = .interrupted)
        fun attempt =>
          { attempt with
            status := .cancelled, finishedAt := attempt.finishedAt.or (some now), updatedAt := now }
      let started : AttemptRow :=
        { runId := state.runId, nodeId := nodeId
          attemptNumber := nextAttemptNumber db state.runId nodeId, status := status
          startedAt := match state.currentNodeStartedAt with
            | some startedAt => dates.parse startedAt
            | none => some now
          updatedAt := now }
      { db with attempts := (retired.insert? attemptId started).getD retired }

/-- A number of milliseconds; durations are whole here. -/
def wholeMs (n : JsNumber) : Nat :=
  n.text.toNat?.getD 0

/-- `syncNodeAttempts`. -/
def syncNodeAttempts : Db :=
  let synced := state.steps.foldl (syncStep dates state now) db
  match state.currentAttemptId, state.currentNode with
  | some attemptId, some nodeId =>
      let ensured := ensureAttempt dates synced state now nodeId attemptId
      match state.currentNodeTimeoutMs with
      | none => ensured
      | some timeoutMs =>
          { ensured with
            attempts := ensured.attempts.updateWhere
              (fun id attempt => id = attemptId ∧ attempt.runId = state.runId ∧
                attempt.timeoutMs = none ∧ attempt.status.isOpen = true)
              fun attempt =>
                { attempt with
                  timeoutMs := some ((timeoutMs.map wholeMs).getD 0), updatedAt := now } }
  | _, _ => synced

/-- An accepted answer counts as consumed once its attempt is finished. -/
def consumeRequest (runId attemptId : String) : Db :=
  { db with
    requests := db.requests.updateWhere
      (fun _ request => request.runId = runId ∧ request.attemptId = attemptId ∧
        request.status.acceptedSubmissionId.isSome = true ∧ request.consumedAt = none)
      fun request => { request with consumedAt := some now, updatedAt := now } }

end

/-! ## What a transition asks of other tables -/

section

variable (sha256 : String → String) (dates : HostDates) (db : Db) (runId : String) (now : Int)

/-- A checkpoint ends with the answer its request accepted. -/
def requireCheckpointAnswer (step : StepRecord) : Except String PUnit := do
  let message := "Checkpoint completion requires its exact accepted response"
  let (requestId, request) ← orThrow message (requestForAttempt db runId step.attemptId)
  require (request.status.acceptedSubmissionId.isSome = true) message
  let output ← acceptedRequestOutput db requestId request
  require (step.output.map canonicalJson = some (canonicalJson output)) message

/-- `HumanDecisionStore.createRequest`. -/
def createDecision (checkDecision : Json → Except String String) (decisionId : String)
    (decision : Json) (attemptId : String) : Except String Db := do
  let requestDigest ← checkDecision decision
  match db.decisions.get? decisionId with
  | some existing => do
      require (canonicalJson existing.request = canonicalJson decision)
        "Immutable human decision request conflicts"
      pure db
  | none => do
      require ((db.runs.get? runId).isSome = true) s!"Human decision run is missing: {runId}"
      require ((db.attempts.get? attemptId).map AttemptRow.runId = some runId)
        s!"Human decision attempt is missing: {attemptId}"
      let decisions ← orThrow "UNIQUE constraint failed: human_decisions.decision_id"
        (db.decisions.insert? decisionId ⟨runId, attemptId, storedJson decision, requestDigest⟩)
      pure { db with decisions := decisions }

/-- The requests of a `waitForInput` transition. -/
def requestInput (checkDecision : Json → Except String String) (definition : DefinitionSnapshot)
    (event : TraceEventDraft) (requestId : String) (requestKind : CheckpointKind)
    (contract : Json) : Except String Db := do
  let node := definition.nodes.lookup (event.nodeId.getD "")
  require (node.any NodeSnapshot.humanDecision = (requestKind = .decision : Bool))
    "Checkpoint response authority does not match its definition"
  let decided ←
    if requestKind = .decision then do
      require
        (textMember contract "runId" = some runId ∧
          textMember contract "attemptId" = event.attemptId ∧
          textMember contract "nodeId" = event.nodeId ∧
          textMember contract "decisionId" = some requestId)
        "Human decision does not match the active checkpoint"
      createDecision db runId checkDecision requestId contract (event.attemptId.getD "")
    else pure db
  let (requested, _) ← ensureWorkflowRequest decided now
    { requestId := requestId, runId := runId, attemptId := event.attemptId.getD ""
      targetSessionId := ((decided.bindings.get? runId).map BindingRow.originSessionId).getD ""
      kind := match requestKind with
        | .checkpoint => .checkpoint
        | .decision => .decision
      contract := contract }
  pure requested

/-- A resume without an attempt gives up the one that was interrupted. -/
def retireAttempt (attemptId : String) : Except String Db := do
  require
    (db.requests.any (fun _ request =>
      request.attemptId = attemptId ∧ request.status = .pending) = false)
    "A pending request must resume its exact attempt"
  require
    ((db.attempts.get? attemptId).any (fun attempt =>
      attempt.runId = runId ∧ attempt.status = .interrupted) = true)
    "Only an interrupted attempt can be replaced"
  pure { db with
    attempts := db.attempts.update attemptId fun attempt =>
      { attempt with status := .cancelled, finishedAt := some now, updatedAt := now } }

/-- `assertSettingsRouteCurrent`. -/
def assertSettingsRouteCurrent (scopeRevision : String → Option Nat)
    (definition : DefinitionSnapshot) (event : TraceEventDraft) : Except String PUnit :=
  match event.nodeId with
  | none => .ok .unit
  | some nodeId =>
      if event.type = "node_finished" ∧
          (definition.nodes.lookup nodeId).any NodeSnapshot.settingsRoute = true then
        match event.payload.lookup "settingsScopeId", event.payload.lookup "settingsChangeNumber" with
        | some (.str scopeId), some (.num changeNumber) => do
            let revision ← orThrow s!"Workflow settings scope not found: {scopeId}"
              (scopeRevision scopeId)
            require (JsNumber.ofNat revision = changeNumber)
              (s!"Settings route {nodeId} used change {changeNumber.text}, " ++
                s!"current change is {revision}")
        | _, _ => .error s!"Settings route {nodeId} has no saved settings binding"
      else .ok .unit

/-- The queue status behind the status of a run that is not running. -/
def lifecycleQueueStatus : RunStatus → QueueStatus
  | .completed => .done
  | .waiting => .parked
  | .cancelled => .cancelled
  | .running | .failed | .timed_out => .failed

/-- `applyLifecycleProjection` of a run the server is running under a generation. -/
def applyLifecycleProjection (state : RunState) (eventType : String) (generation : Nat) : Db :=
  if state.status = .running then
    if eventType = "run_started" ∨ eventType = "run_resumed" then
      db.updateQueue runId fun queue =>
        if queue.status ∈ [QueueStatus.starting, .parked] then
          { queue with
            status := .running, startedAt := queue.startedAt.or (some now), updatedAt := now }
        else queue
    else db
  else
    let status := lifecycleQueueStatus state.status
    let moved := db.updateQueue runId fun queue =>
      if queue.status.isTerminal then queue
      else
        { queue with
          status := status
          errorCode := if status = .failed then some state.status.text else none
          error := (db.runs.get? runId).bind RunRow.error, updatedAt := now
          finishedAt := if status.isTerminal then some now else none }
    let released := moved.updateLease runId fun lease =>
      if lease.generation = generation then lease.release else lease
    settleRunEffect released runId now
      (if state.status = .waiting then "run.park_queue" else "run.settle_queue")

end

/-! ## The commit -/

/-- What a commit is given besides the transition. -/
structure CommitOptions where
  store : StoreContext
  definition : DefinitionSnapshot
  /-- What the tables of steps and settings hold of the run. -/
  saved : RunState
  scopeRevision : String → Option Nat := fun _ => none
  /-- `validateHumanDecisionRequestIntegrity`, with the digest of the request. -/
  checkDecision : Json → Except String String := fun _ => .error "Invalid human decision request"
  /-- The generation the server is running the run under. -/
  activeGeneration : Option Nat := none
  now : Int

section

variable (sha256 : String → String) (dates : HostDates)

/-- The tables a transition writes before the projection. -/
def prepareTransition (db : Db) (runId : String) (options : CommitOptions) (current : RunState)
    (transition : WorkflowTransition) : Except String Db :=
  match transition.kind with
  | .finishAttempt step => do
      onlyIf (step.nodeType = .checkpoint ∧ step.outcome = .ok) (requireCheckpointAnswer db runId step)
      pure db
  | .waitForInput requestId requestKind contract =>
      requestInput db runId options.now options.checkDecision options.definition transition.event
        requestId requestKind contract
  | .resume none =>
      match current.currentAttemptId with
      | some attemptId => retireAttempt db runId options.now attemptId
      | none => pure db
  | _ => pure db

/-- Every table the new projection shows in. -/
def writeProjection (db : Db) (runId : String) (options : CommitOptions)
    (transition : WorkflowTransition) (previous : StoredRunStatus) (state : RunState) : Db :=
  let now := options.now
  let persisted := persistRunState sha256 dates db state now previous (options.store.revision + 1)
  let synced := syncNodeAttempts dates (transitionFollowUpsForRunState persisted state now) state now
  let consumed := match transition.kind with
    | .finishAttempt step => consumeRequest synced now runId step.attemptId
    | _ => synced
  match options.activeGeneration with
  | some generation =>
      applyLifecycleProjection consumed runId now state transition.event.type generation
  | none => consumed

/-- `commitTransition`. -/
def commitTransition (db : Db) (runId : String) (options : CommitOptions)
    (transition : WorkflowTransition) : Except String Db := do
  let authorized ← assertWriteAuthority sha256 db runId options.store options.now
  let run ← orThrow s!"Workflow run is missing: {runId}" (authorized.runs.get? runId)
  let current ← materializeRunState dates authorized runId run options.saved
  let state ← applyExecutionTransition dates.parse current options.definition transition
    (dates.text options.now)
  let prepared ← prepareTransition authorized runId options current transition
  assertSettingsRouteCurrent options.scopeRevision options.definition transition.event
  pure (writeProjection sha256 dates prepared runId options transition run.status state)

end

end PiWorkflows
