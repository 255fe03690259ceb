import Mathlib.Data.List.Sort
import PiWorkflows.Lib.Transaction
import PiWorkflows.Server.DecisionTimeout
import PiWorkflows.Server.SessionSettings

/-!
# Answers to interactive requests (`server/server.ts`)

What a session answers goes to the request that it names, by a way of its own for each kind
of request. The answer of an agent or an assistant is recorded as a candidate, and the
runner that looks at it comes back with what it found. A checkpoint is answered at once. A
decision is answered from the session or from a channel, and is accepted by the store of
decisions before its request is answered, in one transaction.

A command runs in the transaction of `executeCommand`, which stores its receipt behind the
operation and throws if it cannot. A command that is answered from an earlier receipt does
not come here. The check of the session, the messages to it, the cursor of a channel and the
resumption of the run behind the commit are left out.
-/

namespace PiWorkflows

open Fallible Transaction

/-- The request that a command names, if it is addressed and belongs to the run as it says. -/
def addressedRequest (db : Db) (requestId : String) (command : ClientRequest) : Option RequestRow :=
  (db.requests.get? requestId).filter fun interaction =>
    payloadMember command "targetSessionId" = some (.str interaction.targetSessionId) ∧
      command.runId.all fun runId => runId = interaction.runId

/-- `requireRecord` of the payload. -/
def requireRecordPayload (command : ClientRequest) (name : String) : Except String PUnit :=
  require (hasRecordPayload command = true) s!"{name} must be an object"

/-- `isWorkflowRunPaused`. -/
def isWorkflowRunPaused (db : Db) (runId : String) : Bool :=
  (workflowRunRow db runId).any fun row => row.run.paused

/-- `hasInteractionSubmission`. -/
def hasInteractionSubmission (db : Db) (requestId idempotencyKey : String) : Bool :=
  (submissionForKey db requestId idempotencyKey).isSome

/-- `requireNonNegativeInteger(command.expectedRevision, "expectedRevision")`. -/
def requireExpectedRevision (expectedRevision : Option Int) : Except String Nat := do
  let revision ← orThrow "expectedRevision must be a non-negative integer" expectedRevision
  require (0 ≤ revision ∧ revision < 2 ^ 53) "expectedRevision must be a non-negative integer"
  pure revision.toNat

/-- The revision that is expected of a request, its own if none is said. -/
def expectedRevisionOr (interaction : RequestRow) (expectedRevision : Option Int) :
    Except String Nat :=
  match expectedRevision with
  | none => pure interaction.revision
  | some _ => requireExpectedRevision expectedRevision

/-- `value ?? null`. -/
def orNull (value : Option Json) : Json :=
  value.getD .null

/-- The kind of request that a candidate is for. -/
def candidateKind (command : ClientRequest) : RequestKind :=
  if command.operation = "interaction.assistant" then .assistant else .agent

def candidateKindText (command : ClientRequest) : String :=
  if command.operation = "interaction.assistant" then "assistant" else "agent"

def outcomeOf (answer : SubmissionAnswer) : ClientOutcome :=
  if answer.adopted then .adopted else .accepted

/-- The receipt of a candidate, under the ids of its submission. -/
def candidateReceipt (requestId : String) (answer : SubmissionAnswer) : Json :=
  match answer.receipt with
  | .obj members =>
      .obj (Assoc.setKey "submissionId" (.str answer.submissionId)
        (Assoc.setKey "requestId" (.str requestId) members))
  | receipt =>
      .obj [("requestId", .str requestId), ("submissionId", .str answer.submissionId),
        ("receipt", receipt)]

/-- What a channel sends for an answer. `authorized` says that its profile lists the actor and
the chat. -/
structure ChannelAnswer where
  channelId : String
  actorId : String
  eventId : String
  decisionId : String
  requestDigest : String
  response : Json
  idempotencyKey : String
  stableMessageId : String
  authorized : Bool

/-- The answer to a decision, from wherever it comes. -/
structure DecisionAnswer where
  requestId : String
  interaction : RequestRow
  request : HumanDecisionRequest
  response : Json
  source : HumanDecisionAnswerSource
  idempotencyKey : String
  submissionId : String
  expectedRevision : Nat

/-- The clock of an answer: in the store of decisions, and where its request is answered. -/
structure SubmissionClock extends AnswerClock where
  submittedAt : Int

/-- `{ ...response }`, without what no response has. -/
def responseMembers : Json → List (String × Json)
  | .obj members => members
  | _ => []

abbrev Interaction (α : Type) := Work HumanDecisionStore String α

section

variable (sha256 : String → String) (dates : HostDates)
  (normalizeDecisionPresentation : Json → Except String Json)

/-- `state.submitInteraction`. -/
def submitAccepted (options : InteractionOptions) (now : Int) : Interaction SubmissionAnswer :=
  write fun s => (submitInteraction sha256 s.db now options true).map fun answered =>
    ({ s with db := answered.1 }, answered.2)

/-- `answerCheckpoint`. -/
def answerCheckpoint (command : ClientRequest) (now : Int) : Interaction CommandResult := do
  check (requireRecordPayload command "checkpoint answer payload")
  let requestId ← check (requirePayloadString command "requestId")
  let s ← get
  match addressedRequest s.db requestId command with
  | none => pure { outcome := .notFound, error := some "Checkpoint request not found" }
  | some interaction =>
      if interaction.kind = .decision then
        pure {
          outcome := .rejected
          error := some "Protected human decisions cannot be answered by the workflow tool" }
      else if interaction.kind ≠ .checkpoint then
        pure {
          outcome := .rejected, error := some "Only an ordinary checkpoint accepts an answer" }
      else if isWorkflowRunPaused s.db interaction.runId = true ∧
          hasInteractionSubmission s.db requestId command.idempotencyKey = false then
        pure { outcome := .conflict, error := some "Workflow run is paused" }
      else do
        let submissionId ← check (requirePayloadString command "submissionId")
        let expectedRevision ← check (expectedRevisionOr interaction command.expectedRevision)
        let answer ← submitAccepted sha256
          { requestId, submissionId, idempotencyKey := command.idempotencyKey, expectedRevision
            payload := orNull (payloadMember command "input")
            receipt := some (.obj [("requestId", .str requestId),
              ("runId", .str interaction.runId)]) } now
        pure {
          outcome := outcomeOf answer, revision := some answer.interaction.revision
          receipt := some answer.receipt }

/-- `acceptDecisionAnswer`. -/
def acceptDecisionAnswer (answer : DecisionAnswer) (clock : SubmissionClock) :
    Interaction CommandResult := do
  let (status, decision) ← write fun s =>
    s.accept sha256 dates normalizeDecisionPresentation answer.request
      { decisionId := answer.request.decisionId, requestDigest := answer.request.requestDigest
        response := responseMembers answer.response, source := answer.source
        idempotencyKey := answer.idempotencyKey } clock.toAnswerClock
  if status = .conflict then
    pure { outcome := .conflict, error := some "Another human decision answer already won" }
  else do
    let _ ← submitAccepted sha256
      { requestId := answer.requestId, submissionId := answer.submissionId
        idempotencyKey := answer.idempotencyKey, expectedRevision := answer.expectedRevision
        payload := answer.response, receipt := some decision } clock.submittedAt
    pure {
      outcome := if status = .adopted then .adopted else .accepted
      receipt := some (.obj [("requestId", .str answer.requestId),
        ("runId", .str answer.interaction.runId), ("decision", decision)]) }

/-- `answerDecision`. -/
def answerDecision (command : ClientRequest) (clock : SubmissionClock) :
    Interaction CommandResult := do
  check (requireRecordPayload command "decision answer payload")
  let requestId ← check (requirePayloadString command "requestId")
  let s ← get
  match (addressedRequest s.db requestId command).filter fun interaction =>
      interaction.kind = .decision with
  | none => pure {
      outcome := .notFound, error := some s!"Decision request not found: {requestId}" }
  | some interaction =>
      if isWorkflowRunPaused s.db interaction.runId = true then
        pure { outcome := .conflict, error := some "Workflow run is paused" }
      else do
        let request ← check (orThrow "Invalid human decision request"
          (asHumanDecisionRequest interaction.contract))
        let submissionId ← check (requirePayloadString command "submissionId")
        let expectedRevision ← check (requireExpectedRevision command.expectedRevision)
        acceptDecisionAnswer sha256 dates normalizeDecisionPresentation
          { requestId, interaction, request, response := orNull (payloadMember command "response")
            source := ⟨"pi", interaction.targetSessionId, command.idempotencyKey⟩
            idempotencyKey := command.idempotencyKey, submissionId, expectedRevision } clock

/-- `server.submitInteraction`. `timedOut` is what `interactionTimedOut` says of the request. -/
def submitCandidate (command : ClientRequest) (timedOut : Bool) (now : Int) :
    Interaction CommandResult := do
  check (requireRecordPayload command "interaction payload")
  let requestId ← check (requirePayloadString command "requestId")
  let s ← get
  match addressedRequest s.db requestId command with
  | none => pure {
      outcome := .notFound, error := some s!"No matching agent request: {requestId}" }
  | some interaction =>
      if interaction.kind ≠ candidateKind command then
        pure {
          outcome := .rejected
          error := some s!"This request does not accept {candidateKindText command} submissions" }
      else if isWorkflowRunPaused s.db interaction.runId = true ∧
          hasInteractionSubmission s.db requestId command.idempotencyKey = false then
        pure { outcome := .conflict, error := some "Workflow run is paused" }
      else if (payloadMember command "step").isSome = true ∨
          (payloadMember command "attempt").isSome = true then
        pure {
          outcome := .rejected
          error := some "Responses must target requestId, not step or attempt fields" }
      else do
        let submissionId ← check (requirePayloadString command "submissionId")
        let expectedRevision ← check (expectedRevisionOr interaction command.expectedRevision)
        match beginInteractionValidation sha256 s.db now
          { requestId, submissionId, idempotencyKey := command.idempotencyKey, expectedRevision
            payload := orNull (payloadMember command "value")
            receipt := some (.obj [("operation", .str command.operation),
              ("requestId", .str requestId), ("submissionId", .str submissionId),
              ("status", .str "validating")]) } with
        | .ok (db, answer) => do
            set { s with db := db }
            pure {
              outcome := outcomeOf answer, revision := some answer.interaction.revision
              receipt := some (candidateReceipt requestId answer) }
        | .error message =>
            if message = "Interactive request revision conflict" ∧ timedOut = true then
              pure {
                outcome := .rejected
                error := some "Workflow step request expired before this submission was accepted" }
            else throw message

/-- `listPendingDecisionInteractions`. -/
def listPendingDecisionInteractions (db : Db) : List (String × RequestRow) :=
  (db.requests.rows.filter fun e => e.2.kind = .decision ∧ e.2.status = .pending).insertionSort
    fun a b => a.2.createdAt < b.2.createdAt ∨ (a.2.createdAt = b.2.createdAt ∧ a.1 ≤ b.1)

/-- The answer of a channel, in `handleChannelMessage`. An answer to no pending decision is passed
over. -/
def answerFromChannel (message : ChannelAnswer) (clock : SubmissionClock) :
    Interaction (Option CommandResult) := do
  check (require (message.authorized = true)
    "Telegram answer source is not authorized by the server profile")
  let s ← get
  match (listPendingDecisionInteractions s.db).find? fun e =>
      textMember e.2.contract "decisionId" = some message.decisionId with
  | none => pure none
  | some (requestId, interaction) => do
      check (require (textMember interaction.contract "requestDigest" = some message.requestDigest)
        "Telegram answer request digest is stale")
      let request ← check (orThrow "Invalid human decision request"
        (asHumanDecisionRequest interaction.contract))
      let result ← transaction (acceptDecisionAnswer sha256 dates normalizeDecisionPresentation
        { requestId, interaction, request, response := message.response
          source := ⟨message.channelId, message.actorId, message.eventId⟩
          idempotencyKey := message.idempotencyKey, submissionId := message.stableMessageId
          expectedRevision := interaction.revision } clock)
      pure (some result)

/-- `executeCommand`. `fault` is what the receipt cannot be stored for. -/
def executeCommand (fault : Option String) (operation : Interaction CommandResult) :
    Interaction CommandResult :=
  transaction do
    let result ← operation
    match fault with
    | none => pure result
    | some message => throw message

/-- An answer as it comes in. -/
inductive InteractionAnswer where
  | candidate (command : ClientRequest) (timedOut : Bool) (now : Int)
  | checkpoint (command : ClientRequest) (fault : Option String) (now : Int)
  | decision (command : ClientRequest) (fault : Option String) (clock : SubmissionClock)
  | channel (message : ChannelAnswer) (clock : SubmissionClock)

/-- What becomes of an answer. -/
def serveAnswer : InteractionAnswer → Interaction (Option CommandResult)
  | .candidate command timedOut now => some <$> submitCandidate sha256 command timedOut now
  | .checkpoint command fault now =>
      some <$> executeCommand fault (answerCheckpoint sha256 command now)
  | .decision command fault clock =>
      some <$> executeCommand fault
        (answerDecision sha256 dates normalizeDecisionPresentation command clock)
  | .channel message clock =>
      answerFromChannel sha256 dates normalizeDecisionPresentation message clock

/-- What else is done to requests and decisions. `elsewhere` is any transaction that writes to
neither, nor to submissions. -/
inductive InteractionAction where
  | answer (answer : InteractionAnswer)
  | ensureRequest (options : RequestOptions) (now : Int)
  | createDecision (request : HumanDecisionRequest)
  | finishValidation (requestId submissionId : String) (accepted : Bool) (receipt : Json) (now : Int)
  | resumePending (runId : String) (now : Int)
  | expireDecision (server : TimeoutServer) (hasDefault : String → Bool) (clock : PassClock)
      (faults : StoreFaults)
  | cancelDecision (request : HumanDecisionRequest) (reason : CancellationReason)
      (authority : Option RunWriteAuthority) (now : Int)
  | queue (operation : QueueOperation)
  | commit (runId : String) (options : CommitOptions) (transition : WorkflowTransition)
  | elsewhere (change : Db → Db)

/-- A transaction of the database. -/
def onDb (s : HumanDecisionStore) (change : Except String Db) : Except String HumanDecisionStore :=
  change.map fun db => { s with db := db }

/-- One action, which changes nothing if it throws. -/
def interact (s : HumanDecisionStore) : InteractionAction → Except String HumanDecisionStore
  | .answer answer =>
      .ok (left (serveAnswer sha256 dates normalizeDecisionPresentation answer s))
  | .ensureRequest options now => onDb s ((ensureWorkflowRequest s.db now options).map Prod.fst)
  | .createDecision request => s.createRequest sha256 dates normalizeDecisionPresentation request
  | .finishValidation requestId submissionId accepted receipt now =>
      onDb s ((finishInteractionValidation s.db now requestId submissionId accepted receipt).map
        Prod.fst)
  | .resumePending runId now => onDb s ((resumePendingInteraction s.db now runId).map Prod.fst)
  | .expireDecision server hasDefault clock faults =>
      .ok (TimeoutHost.expireTimedOutDecision
        { sha256, dates, normalizeDecisionPresentation, hasDefault, server, clock, faults } s).1
  | .cancelDecision request reason authority now =>
      (s.cancel sha256 dates normalizeDecisionPresentation request reason authority now).map Prod.fst
  | .queue operation => onDb s ((execute sha256 s.db operation).map Prod.fst)
  | .commit runId options transition =>
      onDb s (commitTransition sha256 dates s.db runId options transition)
  | .elsewhere change =>
      let changed := change s.db
      .ok { s with
        db := { changed with
          requests := s.db.requests, submissions := s.db.submissions
          decisions := s.db.decisions, resolutions := s.db.resolutions } }

/-- Actions in any order. -/
def interactions (s : HumanDecisionStore) (actions : List InteractionAction) : HumanDecisionStore :=
  Trace.served (interact sha256 dates normalizeDecisionPresentation) s actions

end

end PiWorkflows
