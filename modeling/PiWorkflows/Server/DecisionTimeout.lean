import PiWorkflows.Workflows.HumanDecision

/-!
# Expired decisions (`server/server.ts`)

From time to time the server looks for a decision whose deadline has passed, and
lets its timeout policy answer it. A pass reads every expired decision that has a
default, takes the first one that is still asked, claims its run and resolves it
in one transaction, which also answers the request of the checkpoint and parks
the run again.

The clock is read once for each statement. What else can go wrong in the database
is said by `StoreFaults`. The pass is taken as one step; the resumption that it
schedules behind the commit is left out.
-/

namespace PiWorkflows

open Fallible

/-! ## Requests as they are stored -/

def readTextInput (value : Json) : Option HumanDecisionTextInput := do
  let name ← textMember value "name"
  let prompt ← textMember value "prompt"
  let minLength ← naturalMember value "minLength"
  let maxLength ← naturalMember value "maxLength"
  pure ⟨name, prompt, minLength, maxLength⟩

def readChoice (value : Json) : Option HumanDecisionChoice := do
  let label ← textMember value "label"
  match value.member? "input" with
  | none => pure { label := label }
  | some input => do
      let input ← readTextInput input
      pure { label := label, input := some input }

def readChoices : Option Json → Option (List (String × HumanDecisionChoice))
  | some (.obj members) => members.mapM fun e => (readChoice e.2).map fun choice => (e.1, choice)
  | _ => none

/-- `value as HumanDecisionRequest`, of a value that is one. -/
def asHumanDecisionRequest (value : Json) : Option HumanDecisionRequest := do
  let decisionId ← textMember value "decisionId"
  let requestDigest ← textMember value "requestDigest"
  let runId ← textMember value "runId"
  let workflowName ← textMember value "workflowName"
  let nodeId ← textMember value "nodeId"
  let attemptId ← textMember value "attemptId"
  let audience ← textMember value "audience"
  let title ← textMember value "title"
  let choices ← readChoices (value.member? "choices")
  let createdAt ← textMember value "createdAt"
  let subject ← value.member? "subject"
  let presentation ← value.member? "presentation"
  let revision ← naturalMember value "revision"
  let subjectDigest ← textMember value "subjectDigest"
  let presentationDigest ← textMember value "presentationDigest"
  pure
    { decisionId := decisionId, requestDigest := requestDigest, runId := runId
      workflowName := workflowName, nodeId := nodeId, attemptId := attemptId
      audience := audience, title := title, choices := choices, createdAt := createdAt
      expiresAt := textMember value "expiresAt", defaultResponse := value.member? "defaultResponse"
      subject := subject, presentation := presentation, revision := revision
      subjectDigest := subjectDigest, presentationDigest := presentationDigest }

/-! ## The server -/

/-- What a pass asks of the server. -/
structure TimeoutServer where
  serverId : String
  runClaimLeaseMs : Int
  stopping : Bool := false
  /-- `this.claim !== null`. -/
  claimed : Bool := true
  decisionTimeoutActive : Bool := false
  activeRuns : String → Bool := fun _ => false
  pendingRunClaims : String → Bool := fun _ => false

/-- The clock as a pass reads it, and the token it makes. -/
structure PassClock where
  listedAt : Int
  claimedAt : Int
  resolvedAt : Int
  submittedAt : Int
  parkedAt : Int
  releasedAt : Int
  claimToken : String

/-- The statements that the database refuses: what is read and resolved by decision, what is
claimed and released by run. -/
structure StoreFaults where
  reading : String → Bool := fun _ => false
  claiming : String → Bool := fun _ => false
  resolving : String → Bool := fun _ => false
  releasing : String → Bool := fun _ => false

/-- `workflowRunAuthority`. -/
def workflowRunAuthority (sha256 : String → String) (db : Db) (runId claimToken : String) :
    Option RunWriteAuthority := do
  let row ← workflowRunRow db runId
  let owner ← row.lease.owner
  if owner.tokenHash = sha256 claimToken then
    some ⟨runnerOwnerType owner.id, owner.id, claimToken, row.lease.generation, some 30000⟩
  else none

/-- A decision that a pass may resolve, with its request in the queue of requests. -/
structure TimeoutCandidate where
  request : HumanDecisionRequest
  interaction : RequestRow

/-- What a pass runs in. `hasDefault` is the column `human_decisions.default_response_hash`, which
is written with the decision and never after. -/
structure TimeoutHost where
  sha256 : String → String
  dates : HostDates
  normalizeDecisionPresentation : Json → Except String Json
  hasDefault : String → Bool
  server : TimeoutServer
  clock : PassClock
  faults : StoreFaults := {}

namespace TimeoutHost

variable (host : TimeoutHost) (s : HumanDecisionStore)

/-- `ORDER BY h.deadline_at, h.decision_id`, of the expired decisions with a default. -/
def expiredRows : List (String × DecisionRow) :=
  let deadline (decisionId : String) : Option Int := (s.deadlines.get? decisionId).join
  (s.db.decisions.rows.filter fun e =>
    (deadline e.1).any (fun deadline => deadline ≤ host.clock.listedAt) &&
      host.hasDefault e.1 && (s.db.resolutions.get? e.1).isNone).mergeSort fun a b =>
        (deadline a.1).getD 0 < (deadline b.1).getD 0 ∨
          ((deadline a.1).getD 0 = (deadline b.1).getD 0 ∧ a.1 ≤ b.1)

/-- `readRequestFromHash`. -/
def readRequestFromHash (e : String × DecisionRow) : Except String HumanDecisionRequest := do
  require (host.faults.reading e.1 = false) "database disk image is malformed"
  let _ ← validateHumanDecisionRequestIntegrity host.sha256 host.normalizeDecisionPresentation
    e.2.request
  orThrow "Invalid human decision request" (asHumanDecisionRequest e.2.request)

/-- `listExpiredDefaultRequests`. -/
def listExpiredDefaultRequests : Except String (List HumanDecisionRequest) :=
  (host.expiredRows s).mapM host.readRequestFromHash

/-- The request of a decision that is still asked and that no runner works on. -/
def candidate? (request : HumanDecisionRequest) : Option TimeoutCandidate := do
  let interaction ← s.db.requests.get? request.decisionId
  if interaction.kind = .decision ∧ interaction.runId = request.runId ∧
      interaction.status = .pending ∧ host.server.activeRuns request.runId = false ∧
      host.server.pendingRunClaims request.runId = false then
    some ⟨request, interaction⟩
  else none

/-- The candidate of a pass, if it has a default. -/
def chooseCandidate : Except String (Option TimeoutCandidate) := do
  let requests ← host.listExpiredDefaultRequests s
  pure ((requests.findSome? (host.candidate? s)).filter fun candidate =>
    candidate.request.defaultResponse.isSome)

/-- `claimWorkflowRunForControl`. -/
def claimWorkflowRunForControl (runId : String) : Except String (Option HumanDecisionStore) := do
  require (host.faults.claiming runId = false) "database is locked"
  let claimed := claimRun host.sha256 s.db runId host.server.serverId host.clock.claimToken
    host.server.runClaimLeaseMs host.clock.claimedAt
    { allowPendingInteraction := true, preserveQueueStatus := true }
  pure (claimed.map fun db => { s with db := db })

/-- The transaction that resolves a decision under the claim of its run. -/
def resolveCandidate (candidate : TimeoutCandidate) : Except String HumanDecisionStore := do
  let request := candidate.request
  require (host.faults.resolving request.decisionId = false) "database is locked"
  let (accepted, _, decision) ← s.resolveTimeout host.sha256 host.dates
    host.normalizeDecisionPresentation request
    (workflowRunAuthority host.sha256 s.db request.runId host.clock.claimToken)
    host.clock.resolvedAt
  let submissionId := s!"timeout-{request.decisionId}"
  let payload ← orThrow "JSON value is undefined" request.defaultResponse
  let (submitted, _) ← submitInteraction host.sha256 accepted.db host.clock.submittedAt
    { requestId := request.decisionId, submissionId := submissionId
      idempotencyKey := submissionId, expectedRevision := candidate.interaction.revision
      payload := payload, receipt := some decision } true
  let parked := parkWorkflowRun host.sha256 submitted request.runId host.clock.claimToken
    host.clock.parkedAt
  require (parked.2 = true) "Decision timeout could not release the parent run claim"
  pure { accepted with db := parked.1 }

/-- `parkWorkflowRun` of a run whose decision was not resolved. -/
def releaseClaim (runId : String) : Except String HumanDecisionStore := do
  require (host.faults.releasing runId = false) "database is locked"
  pure { s with
    db := (parkWorkflowRun host.sha256 s.db runId host.clock.claimToken host.clock.releasedAt).1 }

/-- A pass under the claim of the candidate's run, with the lines it logs. -/
def expireClaimed (claimed : HumanDecisionStore) (candidate : TimeoutCandidate) :
    HumanDecisionStore × List String :=
  let decisionId := candidate.request.decisionId
  match host.resolveCandidate claimed candidate with
  | .ok resolved => (resolved, [s!"human decision {decisionId} resolved by its timeout policy"])
  | .error message =>
      let failed := s!"human decision timeout failed for {decisionId}: {message}"
      match host.releaseClaim claimed candidate.request.runId with
      | .ok released => (released, [failed])
      | .error message => (claimed, [failed, s!"human decision timeout scan failed: {message}"])

/-- `expireTimedOutDecision`, with the lines it logs. -/
def expireTimedOutDecision : HumanDecisionStore × List String :=
  if host.server.stopping ∨ host.server.claimed = false ∨ host.server.decisionTimeoutActive then
    (s, [])
  else
    match host.chooseCandidate s with
    | .error message => (s, [s!"human decision timeout scan failed: {message}"])
    | .ok none => (s, [])
    | .ok (some candidate) =>
        match host.claimWorkflowRunForControl s candidate.request.runId with
        | .error message => (s, [s!"human decision timeout scan failed: {message}"])
        | .ok none => (s, [])
        | .ok (some claimed) => host.expireClaimed claimed candidate

end TimeoutHost

end PiWorkflows
