import PiWorkflows.Lib.Fallible
import PiWorkflows.State.Schema

/-!
# Interactive requests (`workflows/requests.ts`, `server/state.ts`)

A request waits for one answer. A submission is a candidate: it is recorded as
the answer at once, or as rejected, or as `validating`, which another process
finishes later. Every one of these is a transaction of its own, and the status
of the request is what they are fenced by. The revision of a request counts what
happened to it, so a candidate for an older revision is refused.

`sha256` is a parameter; a key that is used again is told apart by the digest of
its payload. Messages to the session are left out.
-/

namespace PiWorkflows

open Fallible

/-- The identity and the payload of a request. -/
structure RequestOptions where
  requestId : String
  runId : String
  attemptId : String
  targetSessionId : String
  kind : RequestKind
  contract : Json

section

variable (sha256 : String → String) (db : Db) (now : Int)

/-- `ensureWorkflowRequest`. -/
def ensureWorkflowRequest (options : RequestOptions) : Except String (Db × RequestRow) :=
  match db.requests.get? options.requestId with
  | some existing => do
      require
        (existing.runId = options.runId ∧ existing.attemptId = options.attemptId ∧
          existing.targetSessionId = options.targetSessionId ∧ existing.kind = options.kind ∧
          canonicalJson existing.contract = canonicalJson options.contract)
        s!"Interactive request conflicts: {options.requestId}"
      pure (db, existing)
  | none => do
      require ((db.attempts.get? options.attemptId).map AttemptRow.runId = some options.runId)
        "Request does not match its run and attempt"
      require (db.requests.any (fun _ request => request.attemptId = options.attemptId) = false)
        "UNIQUE constraint failed: interactive_requests.attempt_id"
      require (db.hasPendingRequest options.runId = false)
        "UNIQUE constraint failed: interactive_requests.run_id"
      let request : RequestRow :=
        { runId := options.runId, attemptId := options.attemptId
          targetSessionId := options.targetSessionId, kind := options.kind
          contract := storedJson options.contract, revision := 1, status := .pending
          createdAt := now, updatedAt := now }
      let requests ← orThrow "UNIQUE constraint failed: interactive_requests.request_id"
        (db.requests.insert? options.requestId request)
      pure ({ db with requests := requests }, request)

/-- `requestForAttempt`; an attempt has at most one request. -/
def requestForAttempt (runId attemptId : String) : Option (String × RequestRow) :=
  db.requests.find? fun _ request => request.runId = runId ∧ request.attemptId = attemptId

/-- `acceptedRequestOutput`. -/
def acceptedRequestOutput (requestId : String) (request : RequestRow) : Except String Json := do
  let submissionId ← orThrow "Workflow request has no accepted output"
    request.status.acceptedSubmissionId
  let submission ← orThrow "Accepted workflow response is missing"
    ((db.submissions.get? submissionId).filter fun submission =>
      submission.requestId = requestId ∧ submission.outcome = .accepted)
  pure submission.payload

/-- `WorkflowSubmissionOptions`. -/
structure SubmissionOptions where
  requestId : String
  submissionId : String
  idempotencyKey : String
  expectedRevision : Nat
  payload : Json
  outcome : SubmissionOutcome
  settle : Bool
  receipt : Option Json := none

/-- What `recordWorkflowSubmission` returns. -/
structure SubmissionAnswer where
  interaction : RequestRow
  submissionId : String
  adopted : Bool
  receipt : Json

/-- The receipt of a submission that was saved without one. -/
def defaultReceipt (requestId submissionId : String) : Json :=
  .obj [("requestId", .str requestId), ("submissionId", .str submissionId)]

/-- The submission under a key of the request. -/
def submissionForKey (requestId idempotencyKey : String) : Option (String × SubmissionRow) :=
  db.submissions.find? fun _ submission =>
    submission.requestId = requestId ∧ submission.idempotencyKey = idempotencyKey

/-- The response a human gave to the decision behind a request. -/
def verifiedResponse (requestId : String) (request : RequestRow) : Option Json := do
  let decision ← db.decisions.get? requestId
  let resolution ← db.resolutions.get? requestId
  if decision.runId = request.runId ∧ decision.attemptId = request.attemptId then
    match resolution.outcome with
    | .ok response => response.member? "response"
    | .error _ => none
  else none

/-- The checks of a new submission. -/
def checkSubmission (request : RequestRow) (options : SubmissionOptions) : Except String PUnit := do
  require (request.revision = options.expectedRevision ∧ request.status = .pending)
    "Interactive request revision conflict"
  onlyIf (options.outcome = .validating)
    (require
      (db.submissions.any (fun _ submission =>
        submission.requestId = options.requestId ∧ submission.outcome = .validating) = false)
      "Interactive submission validation is already active")
  onlyIf (options.settle = true)
    (require (options.outcome = .accepted) "Only accepted output can settle a request")
  onlyIf (request.kind = .decision ∧ options.settle = true)
    (require
      ((verifiedResponse db options.requestId request).map canonicalJson =
        some (canonicalJson options.payload))
      "Checkpoint response does not match a verified human decision")

/-- The request with its winner. -/
def settleRequest (submissionId : String) (request : RequestRow) : RequestRow :=
  { request with
    status := .settled submissionId now, revision := request.revision + 1, updatedAt := now }

/-- `recordWorkflowSubmission`. -/
def recordWorkflowSubmission (options : SubmissionOptions) :
    Except String (Db × SubmissionAnswer) := do
  let request ← orThrow "Workflow request is missing" (db.requests.get? options.requestId)
  match submissionForKey db options.requestId options.idempotencyKey with
  | some (submissionId, existing) => do
      require (jsonHash sha256 existing.payload = jsonHash sha256 options.payload)
        "Interactive submission idempotency key conflicts"
      pure (db, {
        interaction := request, submissionId := submissionId, adopted := true
        receipt := existing.receipt.getD (defaultReceipt options.requestId submissionId) })
  | none => do
      checkSubmission db request options
      let submissions ← orThrow "UNIQUE constraint failed: interactive_submissions.submission_id"
        (db.submissions.insert? options.submissionId
          { requestId := options.requestId, idempotencyKey := options.idempotencyKey
            requestRevision := options.expectedRevision, payload := storedJson options.payload
            outcome := options.outcome, receipt := options.receipt.map storedJson
            submittedAt := now })
      let requests :=
        if options.settle then
          db.requests.update options.requestId (settleRequest now options.submissionId)
        else db.requests
      let interaction := if options.settle then settleRequest now options.submissionId request
        else request
      pure ({ db with submissions := submissions, requests := requests }, {
        interaction := interaction, submissionId := options.submissionId, adopted := false
        receipt :=
          options.receipt.getD (defaultReceipt options.requestId options.submissionId) })

/-! ## The callers in `server/state.ts` -/

/-- The options both callers pass on. -/
structure InteractionOptions where
  requestId : String
  submissionId : String
  idempotencyKey : String
  expectedRevision : Nat
  payload : Json
  receipt : Option Json := none

/-- `submitInteraction`. -/
def submitInteraction (options : InteractionOptions) (accepted : Bool) :
    Except String (Db × SubmissionAnswer) :=
  recordWorkflowSubmission sha256 db now
    { requestId := options.requestId, submissionId := options.submissionId
      idempotencyKey := options.idempotencyKey, expectedRevision := options.expectedRevision
      payload := options.payload, receipt := options.receipt
      outcome := if accepted then .accepted else .rejected, settle := accepted }

/-- `beginInteractionValidation`. -/
def beginInteractionValidation (options : InteractionOptions) :
    Except String (Db × SubmissionAnswer) :=
  recordWorkflowSubmission sha256 db now
    { requestId := options.requestId, submissionId := options.submissionId
      idempotencyKey := options.idempotencyKey, expectedRevision := options.expectedRevision
      payload := options.payload, receipt := options.receipt
      outcome := .validating, settle := false }

/-- A submission with what its validator found. -/
def finishSubmission (accepted : Bool) (receipt : Json) (submission : SubmissionRow) :
    SubmissionRow :=
  { submission with
    outcome := if accepted then .accepted else .rejected, receipt := some (storedJson receipt) }

/-- `finishInteractionValidation`. -/
def finishInteractionValidation (requestId submissionId : String) (accepted : Bool)
    (receipt : Json) : Except String (Db × SubmissionRow) := do
  let expectedOutcome : SubmissionOutcome := if accepted then .accepted else .rejected
  let submission ← orThrow "Interactive submission is not awaiting validation"
    ((db.submissions.get? submissionId).filter fun submission => submission.requestId = requestId)
  if submission.outcome = expectedOutcome then pure (db, submission)
  else do
    require (submission.outcome = .validating) "Interactive submission is not awaiting validation"
    let request ← orThrow s!"Interactive request not found: {requestId}"
      (db.requests.get? requestId)
    let finished :=
      { db with submissions := db.submissions.update submissionId (finishSubmission accepted receipt) }
    onlyIf (accepted = true)
      (require (request.status = .pending) "Interactive request validation is stale")
    let settled :=
      if accepted then
        { finished with requests := finished.requests.update requestId (settleRequest now submissionId) }
      else finished
    pure (settled, finishSubmission accepted receipt submission)

/-- `resumePendingInteraction`; a run has at most one pending request. -/
def resumePendingInteraction (runId : String) : Except String (Db × RequestRow) := do
  let (requestId, current) ← orThrow "Pending workflow interaction is missing"
    (db.requests.find? fun _ request => request.runId = runId ∧ request.status = .pending)
  if current.kind = .decision ∨ current.kind = .checkpoint then pure (db, current)
  else
    let resume := fun request : RequestRow =>
      { request with revision := request.revision + 1, updatedAt := now }
    pure ({ db with requests := db.requests.update requestId resume }, resume current)

end

end PiWorkflows
