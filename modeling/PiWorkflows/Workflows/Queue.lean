import PiWorkflows.Js.Text
import PiWorkflows.Lib.Trace
import PiWorkflows.State.Schema

/-!
# The run queue (`workflows/queue.ts`)

Every operation is one transaction: it gives a new database and an answer, or
throws and leaves the database alone. An operation that presents a claim token
answers `false` where the token does not hold the live lease of the run.

A conditional `UPDATE` whose condition the same transaction has just read is
written without the condition, and the check of `changes` behind it, which
cannot fail then, is left out. Where the source lets the check decide, it stands
here too. The times of a call come in as numbers. Messages, events and viewer
deltas are left out.
-/

namespace PiWorkflows

open Fallible

/-- `RunRow`: what `workflowRunSelect` joins for one run. -/
structure QueuedRun where
  run : RunRow
  queue : QueueRow
  binding : Option BindingRow
  lease : Lease

/-- `workflowRunRow`. -/
def workflowRunRow (db : Db) (runId : String) : Option QueuedRun := do
  let run ← db.runs.get? runId
  let queue ← db.runQueue.get? runId
  let lease ← db.leases.get? runId
  pure ⟨run, queue, db.bindings.get? runId, lease⟩

/-- `requireWorkflowRunRow`. -/
def requireWorkflowRunRow (db : Db) (runId : String) : Except String QueuedRun :=
  orThrow s!"Workflow run not found: {runId}" (workflowRunRow db runId)

/-! ## Reservations -/

/-- `WorkflowRunReservationOptions`. The only declared lineage is a restart. -/
structure ReservationOptions where
  runId : String
  workflowName : String
  workflowSourceRef : String
  workflowSource : Json
  definitionDigest : String
  input : Json
  launchOptions : Option Json := none
  originSessionId : String
  executionMode : Option ExecutionMode := none
  parentRunId : Option String := none
  isRestart : Bool := false
  restartNumber : Option Nat := none
  parentRunRevision : Option Nat := none

def isRunIdChar (c : Char) : Bool :=
  c.isAlphanum || c == '.' || c == '_' || c == '-'

/-- `validateRunId`. -/
def validateRunId (value : String) : Except String PUnit :=
  match value.toList with
  | [] => .error s!"Invalid workflow run id: {value}"
  | c :: rest =>
      require (c.isAlphanum = true ∧ rest.all isRunIdChar = true ∧ rest.length ≤ 199)
        s!"Invalid workflow run id: {value}"

/-- `digestBuffer`: the digest as lower-case hexadecimal digits. -/
def digestBuffer (value : String) : Except String String := do
  let digits := value.toList
  let hex := if "sha256:".toList <+: digits then digits.drop 7 else digits
  let lower := hex.map Char.toLower
  require (lower.length = 64 ∧ lower.all isHexDigit = true) "Expected a SHA-256 digest"
  pure (String.ofList lower)

/-- The lineage of a reservation: root, restart number and parent revision. -/
def reservationLineage (db : Db) (options : ReservationOptions) :
    Except String (String × Nat × Option Nat) :=
  match options.parentRunId with
  | some parentRunId => do
      require (options.isRestart = true) "Only an explicit restart can declare a parent run"
      let parent ← requireWorkflowRunRow db parentRunId
      require (parent.binding.map BindingRow.originSessionId = some options.originSessionId)
        "Workflow parent belongs to another Pi session"
      require (parent.run.status.isTerminal = true ∧ parent.queue.status.isTerminal = true)
        "Restart parent is not terminal"
      let revision ← orThrow "Restart requires the exact parent run revision"
        options.parentRunRevision
      require (revision = parent.run.revision) "Restart parent revision changed"
      let next := parent.run.restartNumber + 1
      require (options.restartNumber.getD next = next) "Restart number does not follow its parent"
      pure (parent.run.rootRunId, next, some revision)
  | none => do
      require (options.isRestart = false) "Only an explicit restart can declare a parent run"
      require (options.restartNumber = none ∧ options.parentRunRevision = none)
        "A root workflow run cannot declare restart metadata"
      pure (options.runId, 0, none)

/-- The queue entries that hold the session, the oldest first. -/
def activeSessionRuns (db : Db) (sessionId : String) : List (String × QueueRow) :=
  (db.runQueue.rows.filter fun e =>
    e.2.originSessionId = some sessionId ∧ e.2.status.isTerminal = false).mergeSort
      fun a b => a.2.createdAt < b.2.createdAt ∨
        (a.2.createdAt = b.2.createdAt ∧ a.1 ≤ b.1)

/-- The session a reservation holds; a headless run holds none. -/
def sessionReservation (options : ReservationOptions) : Option String :=
  if options.executionMode = some .headless then none else some options.originSessionId

/-- `reserveWorkflowRunInTransaction`. -/
def reserveWorkflowRunInTransaction (db : Db) (options : ReservationOptions) (now : Int)
    (definitionDigest : String) : Except String Db := do
  require ((workflowRunRow db options.runId).isNone = true)
    s!"Workflow run already reserved: {options.runId}"
  let (rootRunId, restartNumber, parentRunRevision) ← reservationLineage db options
  match (sessionReservation options).bind fun session => (activeSessionRuns db session).head? with
  | some (activeRunId, active) =>
      .error (s!"Pi session {options.originSessionId} already has active workflow run " ++
        s!"{activeRunId} ({active.status.text}). Wait for it to finish, inspect it, or cancel it " ++
        "before starting another run.")
  | none => do
      let leases ← orThrow "UNIQUE constraint failed: resources.resource_id"
        (db.leases.insert? options.runId ⟨0, none⟩)
      let runs ← orThrow "UNIQUE constraint failed: runs.run_id"
        (db.runs.insert? options.runId
          { status := .queued, updatedAt := now, workflowName := options.workflowName
            workflowRef := options.workflowSourceRef, workflowSource := options.workflowSource
            definitionDigest := definitionDigest, input := options.input
            launchOptions := options.launchOptions.getD (.obj []), parentRunId := options.parentRunId
            rootRunId := rootRunId, restartNumber := restartNumber
            parentRunRevision := parentRunRevision, revision := 1 })
      let bindings ← orThrow "UNIQUE constraint failed: run_bindings.run_id"
        (db.bindings.insert? options.runId
          ⟨options.originSessionId, options.executionMode.getD .interactive⟩)
      let runQueue ← orThrow "UNIQUE constraint failed: run_queue.run_id"
        (db.runQueue.insert? options.runId
          { status := .queued, availableAt := now, originSessionId := sessionReservation options
            createdAt := now, updatedAt := now })
      pure { db with leases := leases, runs := runs, bindings := bindings, runQueue := runQueue }

/-- `reserveWorkflowRun`. -/
def reserveWorkflowRun (db : Db) (options : ReservationOptions) (now : Int) : Except String Db := do
  validateRunId options.runId
  let definitionDigest ← digestBuffer options.definitionDigest
  reserveWorkflowRunInTransaction db options now definitionDigest

/-- `assertWorkflowRunPreparationCompatible`. -/
def assertWorkflowRunPreparationCompatible (db : Db) (row : QueuedRun)
    (options : ReservationOptions) (definitionDigest : String) : Except String PUnit := do
  let parent ← match options.parentRunId with
    | some parentRunId => (requireWorkflowRunRow db parentRunId).map some
    | none => pure none
  let parentRestarts := parent.map fun parent => parent.run.restartNumber
  let isRestart := options.parentRunId.isSome && options.isRestart
  let expectedRestartNumber :=
    if isRestart then options.restartNumber.getD ((parentRestarts.map (· + 1)).getD 0)
    else parentRestarts.getD 0
  require
    (row.run.workflowName = options.workflowName ∧
      row.run.workflowRef = options.workflowSourceRef ∧
      row.run.definitionDigest = definitionDigest ∧
      canonicalJson row.run.workflowSource = canonicalJson options.workflowSource ∧
      canonicalJson row.run.input = canonicalJson options.input ∧
      canonicalJson row.run.launchOptions = canonicalJson (options.launchOptions.getD (.obj [])) ∧
      row.binding =
        some ⟨options.originSessionId, options.executionMode.getD .interactive⟩ ∧
      row.run.parentRunId = options.parentRunId ∧
      row.run.rootRunId = (parent.map fun parent => parent.run.rootRunId).getD options.runId ∧
      row.run.parentRunId.isSome = isRestart ∧
      row.run.restartNumber = expectedRestartNumber ∧
      row.run.parentRunRevision = options.parentRunRevision)
    s!"Workflow run preparation conflicts: {options.runId}"

/-- `reserveOrAdoptWorkflowRun`. -/
def reserveOrAdoptWorkflowRun (db : Db) (options : ReservationOptions) (now : Int) :
    Except String Db := do
  validateRunId options.runId
  let definitionDigest ← digestBuffer options.definitionDigest
  match workflowRunRow db options.runId with
  | some existing => do
      assertWorkflowRunPreparationCompatible db existing options definitionDigest
      pure db
  | none => reserveWorkflowRunInTransaction db options now definitionDigest

/-! ## Claims -/

/-- The options of `claimRun`. -/
structure ClaimOptions where
  allowPendingInteraction : Bool := false
  preserveQueueStatus : Bool := false

/-- The owner type a runner claims as. -/
def runnerOwnerType (runnerId : String) : OwnerType :=
  if "server-".toList <+: runnerId.toList then .server else .session

/-- `claimRunInTransaction`: nothing if the run cannot be claimed now. -/
def claimRun (sha256 : String → String) (db : Db) (runId runnerId claimToken : String)
    (leaseMs now : Int) (options : ClaimOptions) : Option Db :=
  match workflowRunRow db runId with
  | none => none
  | some row =>
      if row.queue.status.isTerminal = true then none
      else if options.allowPendingInteraction = false ∧ db.hasPendingRequest runId = true then none
      else if row.lease.isLive now = true ∧
          (row.lease.owner.any fun owner => owner.id = runnerId) = false then none
      else
        let owner : LeaseOwner :=
          { type := runnerOwnerType runnerId, id := runnerId, tokenHash := sha256 claimToken
            acquiredAt := now, heartbeatAt := now, expiresAt := now + leaseMs }
        let claimed := db.updateLease runId fun lease => lease.claim owner
        let started :=
          if options.preserveQueueStatus then claimed
          else claimed.updateQueue runId fun queue =>
            { queue with status := .starting, errorCode := none, error := none, updatedAt := now }
        some (started.bumpRun runId)

/-- The conditions of `claimNextWorkflowRun` on one run. -/
def isClaimable (db : Db) (runId : String) (row : QueuedRun) (runnerId : String) (now : Int)
    (excludeRunIds : List String) : Bool :=
  row.queue.status.isTerminal = false ∧
    row.queue.availableAt ≤ now ∧
    (row.lease.isLive now = false ∨ (row.lease.owner.any fun owner => owner.id = runnerId) = true) ∧
    ¬ (row.queue.status = .parked ∧ (row.run.status = .waiting ∨ row.run.paused = true)) ∧
    db.hasPendingRequest runId = false ∧
    row.queue.errorCode ∉ [some "workflowSourceChanged", some "runnerNoProgress"] ∧
    runId ∉ excludeRunIds

/-- The run `claimNextWorkflowRun` selects, `ORDER BY available_at, created_at`. -/
def nextClaimable (db : Db) (runnerId : String) (now : Int) (excludeRunIds : List String) :
    Option String :=
  let rows := db.runQueue.rows.filterMap fun e => (workflowRunRow db e.1).map (e.1, ·)
  let claimable := rows.filter fun e => isClaimable db e.1 e.2 runnerId now excludeRunIds
  let sorted := claimable.mergeSort fun a b =>
    a.2.queue.availableAt < b.2.queue.availableAt ∨
      (a.2.queue.availableAt = b.2.queue.availableAt ∧ a.2.queue.createdAt ≤ b.2.queue.createdAt)
  sorted.head?.map Prod.fst

/-- `claimNextWorkflowRun`: the run it claimed. -/
def claimNextWorkflowRun (sha256 : String → String) (db : Db) (runnerId claimToken : String)
    (leaseMs now : Int) (excludeRunIds : List String) : Option (String × Db) := do
  let runId ← nextClaimable db runnerId now excludeRunIds
  let claimed ← claimRun sha256 db runId runnerId claimToken leaseMs now {}
  pure (runId, claimed)

/-- `verifyWorkflowRunClaim`. -/
def verifyWorkflowRunClaim (sha256 : String → String) (db : Db) (runId claimToken : String)
    (now : Int) : Bool :=
  (workflowRunRow db runId).any fun row => row.lease.isHeldBy sha256 claimToken now

/-- `renewWorkflowRunClaim`. -/
def renewWorkflowRunClaim (sha256 : String → String) (db : Db) (runId claimToken : String)
    (leaseMs now : Int) : Db × Bool :=
  if verifyWorkflowRunClaim sha256 db runId claimToken now then
    (db.updateLease runId fun lease =>
      { lease with owner := lease.owner.map fun owner =>
        { owner with heartbeatAt := now, expiresAt := now + leaseMs } }, true)
  else (db, false)

/-! ## Status changes under a claim -/

section

variable (sha256 : String → String) (db : Db) (runId claimToken : String) (now : Int)

/-- `updateClaimedRunStatus`. -/
def updateClaimedRunStatus (status : QueueStatus) : Db × Bool :=
  if verifyWorkflowRunClaim sha256 db runId claimToken now then
    let updated := db.updateQueue runId fun queue =>
      { queue with status := status, startedAt := queue.startedAt.or (some now), updatedAt := now }
    (updated.bumpRun runId, true)
  else (db, false)

/-- `markWorkflowRunRunning`. -/
def markWorkflowRunRunning : Db × Bool :=
  updateClaimedRunStatus sha256 db runId claimToken now .running

/-- `settleRunEffect`. -/
def settleRunEffect (effectType : String) : Db :=
  { db with
    effects := db.effects.updateWhere
      (fun _ effect => effect.sourceRun = some runId ∧ effect.effectType = effectType ∧
        effect.status = .pending)
      fun effect =>
        { effect with status := .applied, updatedAt := now, settledAt := some now } }

/-- `releaseRunClaim`. -/
def releaseRunClaim (status : QueueStatus) : Db × Bool :=
  if verifyWorkflowRunClaim sha256 db runId claimToken now then
    let updated := db.updateQueue runId fun queue =>
      { queue with
        status := status, updatedAt := now
        finishedAt := if status = .done then some now else none }
    let released := (updated.updateLease runId Lease.release).bumpRun runId
    (settleRunEffect released runId now
      (if status = .parked then "run.park_queue" else "run.settle_queue"), true)
  else (db, false)

/-- `parkWorkflowRun`. -/
def parkWorkflowRun : Db × Bool :=
  releaseRunClaim sha256 db runId claimToken now .parked

/-- `completeWorkflowRun`. -/
def completeWorkflowRun : Db × Bool :=
  releaseRunClaim sha256 db runId claimToken now .done

/-- The detail a parked run keeps of an error. -/
def errorDetail (detail : String) : String :=
  String.ofList (detail.toList.take 8192)

/-- `parkWorkflowRunForRunnerNoProgress` and `parkWorkflowRunForSourceChange`,
which differ in the error code and in the text they throw. -/
def parkForError (errorCode detail conflict : String) : Except String (Db × Bool) :=
  match workflowRunRow db runId with
  | none => .ok (db, false)
  | some row =>
      if row.lease.isHeldBy sha256 claimToken now then do
        require (row.run.status.isTerminal = false ∧ row.queue.status.isTerminal = false)
          s!"Workflow run {runId} {conflict}"
        let detail := errorDetail detail
        let parked := (db.updateRun runId fun run =>
          { run with statusDetail := some detail, updatedAt := now, finishedAt := none }).updateQueue
            runId fun queue =>
              { queue with
                status := .parked, errorCode := some errorCode, error := some detail
                availableAt := now, updatedAt := now, finishedAt := none }
        pure ((parked.updateLease runId Lease.release).bumpRun runId, true)
      else .ok (db, false)

/-- `parkWorkflowRunForRunnerNoProgress`. -/
def parkWorkflowRunForRunnerNoProgress (detail : String) : Except String (Db × Bool) :=
  parkForError sha256 db runId claimToken now "runnerNoProgress" detail
    "changed during runner recovery"

/-- `parkWorkflowRunForSourceChange`. -/
def parkWorkflowRunForSourceChange (detail : String) : Except String (Db × Bool) :=
  parkForError sha256 db runId claimToken now "workflowSourceChanged" detail
    "has inconsistent source-change state"

/-- `parkWorkflowRunForAmbiguousEffect`. -/
def parkWorkflowRunForAmbiguousEffect : Except String (Db × Bool) :=
  match workflowRunRow db runId with
  | none => .ok (db, false)
  | some row =>
      if row.lease.isHeldBy sha256 claimToken now then do
        require (row.run.status = .running ∧
            row.queue.status ∈ [QueueStatus.starting, .running, .parked])
          s!"Workflow run {runId} has inconsistent ambiguous-effect state"
        let detail := "effect outcome is ambiguous; explicit recovery is required"
        let waiting :=
          { db with
            attempts := db.attempts.updateWhere
              (fun _ attempt => attempt.runId = runId ∧
                attempt.status ∈ [AttemptStatus.pending, .running])
              fun attempt => { attempt with status := .waiting, updatedAt := now } }
        let parked := (waiting.updateRun runId fun run =>
          { run with
            status := .waiting, statusDetail := some detail, updatedAt := now
            finishedAt := none }).updateQueue runId fun queue =>
              { queue with
                status := .parked, errorCode := some "effectAmbiguous", error := some detail
                updatedAt := now }
        pure ((parked.updateLease runId Lease.release).bumpRun runId, true)
      else .ok (db, false)

end

/-! ## Interactions -/

section

variable (db : Db) (runId : String) (now : Int)

/-- The time an attempt has been active. -/
def activeTime (attemptId : String) : Nat :=
  ((db.intervals.rows.filter fun e => e.1.1 = attemptId).map fun e => e.2.elapsedMs).sum

/-- The attempt has a deadline and has used it up. -/
def isExpiredAttempt (attemptId : String) : Bool :=
  ((db.attempts.get? attemptId).bind AttemptRow.timeoutMs).any fun timeoutMs =>
    0 < timeoutMs ∧ timeoutMs ≤ activeTime db attemptId

/-- The expired interaction of a run; a run has at most one pending request. -/
def expiredInteraction (targetSessionId : String) : Option (String × RequestRow) :=
  db.requests.find? fun _ request =>
    request.runId = runId ∧ request.targetSessionId = targetSessionId ∧
      request.status = .pending ∧ isExpiredAttempt db request.attemptId = true

/-- Reject the submissions of the requests that a validator is still looking at. -/
def rejectValidating (isRejected : String → Bool) (error : String) : Db :=
  { db with
    submissions := db.submissions.updateWhere
      (fun _ submission => submission.outcome = .validating ∧ isRejected submission.requestId = true)
      fun submission =>
        { submission with
          outcome := .rejected
          receipt := some (.obj [("error", .str error), ("status", .str "rejected")]) } }

/-- Cancel a request under its next revision. -/
def cancelRequest (request : RequestRow) : RequestRow :=
  { request with status := .cancelled, revision := request.revision + 1, updatedAt := now }

/-- `beginWorkflowRunInteractionTimeout`. -/
def beginWorkflowRunInteractionTimeout (sha256 : String → String)
    (targetSessionId claimToken : String) : Except String (Db × Bool) :=
  match workflowRunRow db runId with
  | none => .ok (db, false)
  | some row =>
      if row.lease.isHeldBy sha256 claimToken now then
        match if row.run.paused then none else expiredInteraction db runId targetSessionId with
        | none => .ok (db, false)
        | some (requestId, _) => do
            require (row.run.status = .waiting ∧ row.queue.status = .parked)
              s!"Workflow run {runId} changed during interaction timeout"
            let closed := db.closeRunTime runId
            let cancelled :=
              { closed with requests := closed.requests.update requestId (cancelRequest now) }
            let resumed := (cancelled.updateRun runId fun run =>
              { run with
                status := .running
                statusDetail := some "finishing expired interaction deadline"
                updatedAt := now, finishedAt := none }).updateQueue runId fun queue =>
                  { queue with
                    status := .starting, errorCode := none, error := none, updatedAt := now
                    finishedAt := none }
            let rejected := rejectValidating resumed (fun id => id = requestId)
              "Workflow node model-turn deadline expired"
            pure (rejected.bumpRun runId, true)
      else .ok (db, false)

/-- `pauseParkedWorkflowRun`. -/
def pauseParkedWorkflowRun : Db × Bool :=
  match workflowRunRow db runId with
  | none => (db, false)
  | some row =>
      if row.queue.status ≠ .parked ∨ row.lease.isLive now = true ∨
          db.hasPendingRequest runId = false then (db, false)
      else if row.run.paused then (db, true)
      else if row.run.status ∈ [StoredRunStatus.running, .waiting] then
        let paused := db.updateRun runId fun run =>
          { run with paused := true, statusDetail := some "paused", updatedAt := now }
        ((paused.closeRunTime runId).bumpRun runId, true)
      else (db, false)

/-- `resumePausedInteraction`. -/
def resumePausedInteraction : Db × Bool :=
  match workflowRunRow db runId with
  | none => (db, false)
  | some row =>
      if row.queue.status = .parked ∧ row.run.status = .waiting ∧ row.run.paused = true ∧
          row.lease.isLive now = false ∧ db.hasPendingRequest runId = true then
        let resumed := db.updateRun runId fun run =>
          { run with
            paused := false, statusDetail := some "waiting for origin-session input"
            updatedAt := now }
        (resumed.bumpRun runId, true)
      else (db, false)

/-- `requestWorkflowRunResume`. -/
def requestWorkflowRunResume : Db × Bool :=
  match workflowRunRow db runId with
  | none => (db, false)
  | some row =>
      if row.queue.status.isTerminal = true ∨ row.lease.isLive now = true ∨
          db.hasPendingRequest runId = true then (db, false)
      else
        let resumed := (db.updateRun runId fun run =>
          { run with paused := false, updatedAt := now }).updateQueue runId fun queue =>
            { queue with
              status := .queued, errorCode := none, error := none, availableAt := now
              updatedAt := now }
        (resumed.bumpRun runId, true)

end

/-! ## Terminal outcomes -/

section

variable (db : Db) (runId : String) (now : Int)

/-- Close the open attempts of a run with a status and an error. -/
def closeAttempts (status : AttemptStatus) (error : String) : Db :=
  { db with
    attempts := db.attempts.updateWhere
      (fun _ attempt => attempt.runId = runId ∧ attempt.status.isOpen = true)
      fun attempt =>
        { attempt with
          status := status, error := attempt.error.or (some error), updatedAt := now
          finishedAt := attempt.finishedAt.or (some now) } }

/-- Cancel the pending requests of a run. -/
def cancelPendingRequests : Db :=
  { db with
    requests := db.requests.updateWhere
      (fun _ request => request.runId = runId ∧ request.status = .pending) (cancelRequest now) }

/-- The effects a cancellation closes. -/
def isOpenRunEffect (effect : EffectRow) : Bool :=
  effect.sourceRun = some runId ∧ effect.ownerScope = .run ∧
    effect.status ∈ [EffectStatus.pending, .applying]

/-- Close the effects of a run: what was being applied is ambiguous now. -/
def cancelRunEffects (error : String) : Db :=
  { db with
    effects := db.effects.updateWhere (fun _ effect => isOpenRunEffect runId effect)
      fun effect =>
        { effect with
          status := if effect.status = .applying then .ambiguous else .cancelled
          nextAttemptAt := none, error := some error, updatedAt := now, settledAt := some now }
    effectAttempts := db.effectAttempts.updateWhere
      (fun key attempt => attempt.finishedAt = none ∧
        (db.effects.get? key.1).any fun effect =>
          isOpenRunEffect runId effect = true ∧ effect.status = .applying ∧
            effect.attemptCount = key.2)
      fun attempt =>
        { attempt with
          finishedAt := some now, outcome := some .interrupted, error := some error } }

/-- Resolve the open decisions of a run as cancelled. -/
def cancelRunDecisions (actorId : String) : Db :=
  { db with
    resolutions := db.resolutions.insertMissing
      ((db.decisions.rows.filter fun e => e.2.runId = runId).map fun e =>
        (e.1,
          { outcome := .error "Workflow run cancelled", actorId := some actorId
            requestDigest := e.2.requestDigest, resolvedAt := now })) }

/-- Whether a request belongs to the run. -/
def isRequestOf (requestId : String) : Bool :=
  (db.requests.get? requestId).any fun request => request.runId = runId

/-- `cancelWorkflowRunDependents`. -/
def cancelWorkflowRunDependents (actorId error : String) : Db :=
  let closed := closeAttempts (db.closeRunTime runId) runId now .cancelled error
  let effects := cancelRunEffects closed runId now error
  let decisions := cancelRunDecisions effects runId now actorId
  let submissions := rejectValidating decisions (isRequestOf decisions runId) "Workflow run cancelled"
  cancelPendingRequests submissions runId now

/-- The rows `terminalRun` closes for a failed run. -/
def failWorkflowRunDependents (error : String) : Db :=
  let closed := closeAttempts (db.closeRunTime runId) runId now .failed error
  cancelPendingRequests closed runId now

/-- The run and its queue entry with a terminal outcome. -/
def setTerminal (runStatus : StoredRunStatus) (queueStatus : QueueStatus) (code error : String) :
    Db :=
  (db.updateQueue runId fun queue =>
    { queue with
      status := queueStatus, errorCode := some code, error := some error, updatedAt := now
      finishedAt := some now }).updateRun runId fun run =>
        { run with
          status := runStatus, paused := false, statusDetail := none, error := some error
          updatedAt := now, finishedAt := some now }

end

/-- The two outcomes of `terminalRun`. -/
inductive TerminalOutcome where
  | failed
  | cancelled
  deriving DecidableEq, Repr

def TerminalOutcome.runStatus : TerminalOutcome → StoredRunStatus
  | .failed => .failed
  | .cancelled => .cancelled

def TerminalOutcome.queueStatus : TerminalOutcome → QueueStatus
  | .failed => .failed
  | .cancelled => .cancelled

section

variable (sha256 : String → String) (db : Db) (runId : String)

/-- Whether the caller may end the run: with a token it has to hold the lease,
without one the run has to wait for a runner. -/
def mayTerminate (row : QueuedRun) (claimToken : Option String) (now : Int) : Bool :=
  match claimToken with
  | some token => row.lease.isHeldBy sha256 token now
  | none => row.queue.status ∈ [QueueStatus.queued, .starting] ∧ row.lease.owner = none

/-- `terminalRun`. -/
def terminalRun (claimToken : Option String) (outcome : TerminalOutcome) (code error : String)
    (now : Int) : Db × Bool :=
  match workflowRunRow db runId with
  | none => (db, false)
  | some row =>
      if row.queue.status.isTerminal = false ∧ mayTerminate sha256 row claimToken now = true then
        let terminal := setTerminal db runId now outcome.runStatus outcome.queueStatus code error
        let released := if claimToken.isSome then terminal.updateLease runId Lease.release
          else terminal
        let actorId := (row.lease.owner.map LeaseOwner.id).getD "workflow-control"
        let closed := match outcome with
          | .failed => failWorkflowRunDependents released runId now error
          | .cancelled => cancelWorkflowRunDependents released runId now actorId error
        (closed.bumpRun runId, true)
      else (db, false)

/-- `failWorkflowRun`. -/
def failWorkflowRun (claimToken : Option String) (errorCode errorMessage : String) (now : Int) :
    Db × Bool :=
  terminalRun sha256 db runId claimToken .failed errorCode errorMessage now

/-- `cancelStaleWorkflowRun`: the control claim is made and released in one
transaction, so only its generation is left of it. -/
def cancelStaleWorkflowRun (controlId : String) (now : Int) : Except String (Db × Bool) :=
  match workflowRunRow db runId with
  | none => .ok (db, false)
  | some row =>
      if row.queue.status.isTerminal = true ∨ row.lease.isLive now = true then .ok (db, false)
      else do
        require (row.run.status.isTerminal = false)
          s!"Workflow run {runId} has inconsistent durable state"
        let claimed := db.updateLease runId fun lease => ⟨lease.generation + 1, none⟩
        let terminal := setTerminal claimed runId now .cancelled .cancelled "cancelled"
          "Workflow run cancelled"
        let closed := cancelWorkflowRunDependents terminal runId now controlId
          "Workflow run cancelled"
        pure (closed.bumpRun runId, true)

/-- `cancelWorkflowRun`. -/
def cancelWorkflowRun (claimToken : Option String) (now : Int) : Except String (Db × Bool) :=
  let (cancelled, accepted) :=
    terminalRun sha256 db runId claimToken .cancelled "cancelled" "Workflow run cancelled" now
  if accepted = true ∨ claimToken.isSome = true then .ok (cancelled, accepted)
  else cancelStaleWorkflowRun db runId "workflow-control" now

end

/-- `recoverPreviousServer`: the leases of a server that is gone expire now. -/
def expireServerLeases (db : Db) (previousServerId : String) (now : Int) : Db :=
  { db with
    leases := db.leases.updateWhere
      (fun _ lease => lease.owner.any fun owner =>
        owner.id = previousServerId ∧ owner.type ∈ [OwnerType.server, .resource_manager] ∧
          now < owner.expiresAt)
      fun lease => { lease with owner := lease.owner.map fun owner =>
        { owner with expiresAt := now } } }

/-! ## The operations together -/

/-- A call of the queue, by any party and with any token and time. -/
inductive QueueOperation where
  | reserve (options : ReservationOptions) (now : Int)
  | reserveOrAdopt (options : ReservationOptions) (now : Int)
  | claim (runId runnerId claimToken : String) (leaseMs now : Int) (options : ClaimOptions)
  | claimNext (runnerId claimToken : String) (leaseMs now : Int) (excludeRunIds : List String)
  | renew (runId claimToken : String) (leaseMs now : Int)
  | markRunning (runId claimToken : String) (now : Int)
  | park (runId claimToken : String) (now : Int)
  | complete (runId claimToken : String) (now : Int)
  | parkForRunnerNoProgress (runId claimToken detail : String) (now : Int)
  | parkForSourceChange (runId claimToken detail : String) (now : Int)
  | parkForAmbiguousEffect (runId claimToken : String) (now : Int)
  | beginInteractionTimeout (runId targetSessionId claimToken : String) (now : Int)
  | pauseParked (runId : String) (now : Int)
  | resumePausedInteraction (runId : String) (now : Int)
  | requestResume (runId : String) (now : Int)
  | fail (runId : String) (claimToken : Option String) (errorCode errorMessage : String)
      (now : Int)
  | cancel (runId : String) (claimToken : Option String) (now : Int)
  | cancelStale (runId controlId : String) (now : Int)
  | expireServerLeases (previousServerId : String) (now : Int)

/-- Whether the call did what it is for, and the run and the token of the claim it made. -/
structure QueueAnswer where
  accepted : Bool
  claimed : Option (String × String) := none
  deriving DecidableEq

/-- The answer of an operation that makes no claim. -/
def plainAnswer (r : Db × Bool) : Db × QueueAnswer :=
  (r.1, { accepted := r.2 })

/-- The answer to a claim of a run. -/
def claimAnswer (db : Db) (runId claimToken : String) : Option Db → Db × QueueAnswer
  | some claimed => (claimed, { accepted := true, claimed := some (runId, claimToken) })
  | none => (db, { accepted := false })

/-- One call. -/
def execute (sha256 : String → String) (db : Db) : QueueOperation → Except String (Db × QueueAnswer)
  | .reserve options now =>
      (reserveWorkflowRun db options now).map fun reserved => plainAnswer (reserved, true)
  | .reserveOrAdopt options now =>
      (reserveOrAdoptWorkflowRun db options now).map fun reserved => plainAnswer (reserved, true)
  | .claim runId runnerId claimToken leaseMs now options =>
      .ok (claimAnswer db runId claimToken
        (claimRun sha256 db runId runnerId claimToken leaseMs now options))
  | .claimNext runnerId claimToken leaseMs now excludeRunIds =>
      match claimNextWorkflowRun sha256 db runnerId claimToken leaseMs now excludeRunIds with
      | some (runId, claimed) => .ok (claimAnswer db runId claimToken (some claimed))
      | none => .ok (plainAnswer (db, false))
  | .renew runId claimToken leaseMs now =>
      .ok (plainAnswer (renewWorkflowRunClaim sha256 db runId claimToken leaseMs now))
  | .markRunning runId claimToken now =>
      .ok (plainAnswer (markWorkflowRunRunning sha256 db runId claimToken now))
  | .park runId claimToken now =>
      .ok (plainAnswer (parkWorkflowRun sha256 db runId claimToken now))
  | .complete runId claimToken now =>
      .ok (plainAnswer (completeWorkflowRun sha256 db runId claimToken now))
  | .parkForRunnerNoProgress runId claimToken detail now =>
      (parkWorkflowRunForRunnerNoProgress sha256 db runId claimToken now detail).map plainAnswer
  | .parkForSourceChange runId claimToken detail now =>
      (parkWorkflowRunForSourceChange sha256 db runId claimToken now detail).map plainAnswer
  | .parkForAmbiguousEffect runId claimToken now =>
      (parkWorkflowRunForAmbiguousEffect sha256 db runId claimToken now).map plainAnswer
  | .beginInteractionTimeout runId targetSessionId claimToken now =>
      (beginWorkflowRunInteractionTimeout db runId now sha256 targetSessionId claimToken).map
        plainAnswer
  | .pauseParked runId now => .ok (plainAnswer (pauseParkedWorkflowRun db runId now))
  | .resumePausedInteraction runId now => .ok (plainAnswer (resumePausedInteraction db runId now))
  | .requestResume runId now => .ok (plainAnswer (requestWorkflowRunResume db runId now))
  | .fail runId claimToken errorCode errorMessage now =>
      .ok (plainAnswer (failWorkflowRun sha256 db runId claimToken errorCode errorMessage now))
  | .cancel runId claimToken now =>
      (cancelWorkflowRun sha256 db runId claimToken now).map plainAnswer
  | .cancelStale runId controlId now =>
      (cancelStaleWorkflowRun db runId controlId now).map plainAnswer
  | .expireServerLeases previousServerId now =>
      .ok (plainAnswer (expireServerLeases db previousServerId now, true))

/-- The run an operation presents a claim token for, with the token. A claim
presents none: the token it brings is the one it makes its claim with. -/
def QueueOperation.presented : QueueOperation → Option (String × String)
  | .renew runId claimToken _ _ | .markRunning runId claimToken _ | .park runId claimToken _
  | .complete runId claimToken _ | .parkForRunnerNoProgress runId claimToken _ _
  | .parkForSourceChange runId claimToken _ _ | .parkForAmbiguousEffect runId claimToken _
  | .beginInteractionTimeout runId _ claimToken _ => some (runId, claimToken)
  | .fail runId claimToken _ _ _ | .cancel runId claimToken _ => claimToken.map (runId, ·)
  | .reserve .. | .reserveOrAdopt .. | .claim .. | .claimNext .. | .pauseParked ..
  | .resumePausedInteraction .. | .requestResume .. | .cancelStale .. | .expireServerLeases .. =>
      none

end PiWorkflows
