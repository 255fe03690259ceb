import PiWorkflows.Workflows.RunStore

/-!
# Human decisions (`workflows/human-decision.ts`)

A decision is asked for once and resolved once: by the answer of a human, by the
default of its timeout policy, or by a cancellation, its own or that of its run.
Every answer that gets past the checks leaves a submission, under an id made of
its idempotency key, and the acceptance marks it with what became of it.

Each operation is one transaction. The times, what the authority provider answers
and the normal form of a presentation come in from outside; a time in a record is
the number its text stands for. The decision's resource, its events and its
viewer deltas are left out.
-/

namespace PiWorkflows

open Fallible

/-! ## Requests -/

/-- `HumanDecisionTextInput`. -/
structure HumanDecisionTextInput where
  name : String
  prompt : String
  minLength : Nat
  maxLength : Nat

def HumanDecisionTextInput.json (input : HumanDecisionTextInput) : Json :=
  .obj [("kind", .str "text"), ("name", .str input.name), ("prompt", .str input.prompt),
    ("minLength", .num (.ofNat input.minLength)), ("maxLength", .num (.ofNat input.maxLength))]

/-- `HumanDecisionChoice`. -/
structure HumanDecisionChoice where
  label : String
  input : Option HumanDecisionTextInput := none

def HumanDecisionChoice.json (choice : HumanDecisionChoice) : Json :=
  .obj (("label", .str choice.label) ::
    optionalMember "input" (choice.input.map HumanDecisionTextInput.json))

/-- `HumanDecisionResponse`, with the one input a choice can ask for. -/
structure HumanDecisionResponse where
  choice : String
  input : Option (String × String) := none

def HumanDecisionResponse.members (response : HumanDecisionResponse) : List (String × Json) :=
  ("choice", .str response.choice) ::
    optionalMember "input" (response.input.map fun (name, text) => .obj [(name, .str text)])

def HumanDecisionResponse.json (response : HumanDecisionResponse) : Json :=
  .obj response.members

/-- `HumanDecisionRequest`. -/
structure HumanDecisionRequest where
  decisionId : String
  requestDigest : String
  runId : String
  workflowName : String
  nodeId : String
  attemptId : String
  audience : String
  title : String
  choices : List (String × HumanDecisionChoice)
  createdAt : String
  expiresAt : Option String := none
  defaultResponse : Option Json := none
  subject : Json
  presentation : Json
  revision : Nat
  subjectDigest : String
  presentationDigest : String

def HumanDecisionRequest.json (request : HumanDecisionRequest) : Json :=
  .obj ([("schema", .str "pi-workflows.human-decision-request.v1"),
    ("decisionId", .str request.decisionId), ("requestDigest", .str request.requestDigest),
    ("runId", .str request.runId), ("workflowName", .str request.workflowName),
    ("nodeId", .str request.nodeId), ("attemptId", .str request.attemptId),
    ("audience", .str request.audience), ("title", .str request.title),
    ("choices", .obj (request.choices.map fun e => (e.1, e.2.json))),
    ("createdAt", .str request.createdAt), ("subject", request.subject),
    ("presentation", request.presentation), ("revision", .num (.ofNat request.revision)),
    ("subjectDigest", .str request.subjectDigest),
    ("presentationDigest", .str request.presentationDigest)] ++
    optionalMember "expiresAt" (request.expiresAt.map .str) ++
    optionalMember "defaultResponse" request.defaultResponse)

section

variable (sha256 : String → String) (normalizeDecisionPresentation : Json → Except String Json)

/-- `digestCanonical`. -/
def digestCanonical (value : Json) : String :=
  "sha256:" ++ sha256 (canonicalJson value ++ "\n")

/-- `digest`. -/
def digest (value : Json) : String :=
  "sha256:" ++ jsonHash sha256 value

/-- The first forty characters of a digest. -/
def shortDigest (value : Json) : String :=
  String.ofList ((jsonHash sha256 value).toList.take 40)

/-- The members `requestDigest` is computed over. -/
def requestBasis (request presentation : Json) : Json :=
  .obj (["schema", "runId", "workflowName", "nodeId", "attemptId", "audience", "title", "choices",
      "expiresAt", "defaultResponse", "subject"].flatMap
      (fun key => optionalMember key (request.member? key)) ++
    ("presentation", presentation) :: optionalMember "revision" (request.member? "revision"))

/-- `validateHumanDecisionRequestIntegrity`: the digest of a request that is what
its digests say. -/
def validateHumanDecisionRequestIntegrity (request : Json) : Except String String := do
  let incompatible := "Human decision state uses an incompatible alpha contract; " ++
    "reset the affected workflow run and decision state."
  require (textMember request "schema" = some "pi-workflows.human-decision-request.v1" ∧
    ∀ key ∈ ["subject", "presentation", "subjectDigest", "presentationDigest", "revision"],
      (request.member? key).isSome = true) incompatible
  let subject ← orThrow incompatible (request.member? "subject")
  let given ← orThrow incompatible (request.member? "presentation")
  let presentation ← normalizeDecisionPresentation given
  require (textMember request "subjectDigest" = some (digestCanonical sha256 subject))
    "Human decision subject digest does not match its durable request"
  require (textMember request "presentationDigest" = some (digestCanonical sha256 presentation))
    "Human decision presentation digest does not match its durable request"
  let requestDigest := digestCanonical sha256 (requestBasis request presentation)
  require (textMember request "requestDigest" = some requestDigest)
    "Human decision request digest does not match its durable request"
  pure requestDigest

end

/-! ## Answers -/

/-- `requireRecord`. -/
def requireRecord (value : Option Json) (label : String) : Except String (List (String × Json)) :=
  match value with
  | some (.obj members) => .ok members
  | _ => .error s!"{label} must be an object"

/-- `requireString` of a text. -/
def requireString (text label : String) : Except String String := do
  require (isBlank text = false) s!"{label} must be a non-empty string"
  pure text

/-- `CHANNEL_PATTERN`. -/
def isChannelName (text : String) : Bool :=
  match text.toList with
  | [] => false
  | first :: rest =>
      first.isAlphanum && rest.length ≤ 199 &&
        rest.all fun c => c.isAlphanum || c ∈ ['.', '_', ':', '-']

/-- `requireChannelId`. -/
def requireChannelId (text label : String) : Except String String := do
  let text ← requireString text label
  require (isChannelName text = true) s!"{label} is invalid"
  pure text

/-- The text a choice asks for, in a response that selects it. -/
def validateInput (selected : String) (input : HumanDecisionTextInput) (value : Option Json) :
    Except String HumanDecisionResponse := do
  let rawInput ← requireRecord value s!"Human decision choice {selected} input"
  match rawInput with
  | [(name, text)] => do
      require (name = input.name)
        s!"Human decision choice {selected} input must contain only {input.name}"
      match text with
      | .str text => do
          require (input.minLength ≤ utf16Length text ∧ utf16Length text ≤ input.maxLength)
            (s!"Human decision choice {selected} input length must be " ++
              s!"{input.minLength} through {input.maxLength}")
          pure ⟨selected, some (input.name, text)⟩
      | _ => .error s!"Human decision choice {selected} input must be text"
  | _ => .error s!"Human decision choice {selected} input must contain only {input.name}"

/-- `validateResponseForChoices`. -/
def validateResponseForChoices (choices : List (String × HumanDecisionChoice)) (value : Json) :
    Except String HumanDecisionResponse := do
  let response ← requireRecord (some value) "Human decision response"
  let unavailable := (response.lookup "choice").elim "undefined" stringify
  let message := s!"Human decision choice {unavailable} is not available"
  let selected ← orThrow message (textMember (.obj response) "choice")
  let selectedChoice ← orThrow message (choices.lookup selected)
  match selectedChoice.input with
  | none => do
      require ((response.lookup "input").isNone = true)
        s!"Human decision choice {selected} does not accept input"
      pure ⟨selected, none⟩
  | some input => validateInput selected input (response.lookup "input")

/-- `validateHumanDecisionResponse`. -/
def validateHumanDecisionResponse (request : HumanDecisionRequest) (value : Json) :
    Except String HumanDecisionResponse :=
  validateResponseForChoices request.choices value

/-- `HumanDecisionAnswerSource`. -/
structure HumanDecisionAnswerSource where
  channel : String
  actorId : String
  eventId : String

def HumanDecisionAnswerSource.json (source : HumanDecisionAnswerSource) : Json :=
  .obj [("channel", .str source.channel), ("actorId", .str source.actorId),
    ("eventId", .str source.eventId)]

/-- `HumanDecisionSubmission`, with the members of a response as they were sent. -/
structure HumanDecisionSubmission where
  decisionId : String
  requestDigest : String
  response : List (String × Json)
  source : HumanDecisionAnswerSource
  idempotencyKey : String

def HumanDecisionSubmission.json (submission : HumanDecisionSubmission) : Json :=
  .obj ([("decisionId", .str submission.decisionId),
    ("requestDigest", .str submission.requestDigest)] ++ submission.response ++
    [("source", submission.source.json), ("idempotencyKey", .str submission.idempotencyKey)])

/-- `validateHumanDecisionSubmission`. -/
def validateHumanDecisionSubmission (dates : HostDates) (request : HumanDecisionRequest)
    (value : HumanDecisionSubmission) (now : Int) : Except String HumanDecisionSubmission := do
  require (value.decisionId = request.decisionId ∧ value.requestDigest = request.requestDigest)
    "Human decision answer is stale or belongs to another request"
  require ((request.expiresAt.bind dates.parse).all fun expiry => now < expiry)
    "Human decision request has expired"
  let response ← validateHumanDecisionResponse request (.obj value.response)
  let channel ← requireChannelId value.source.channel "Human decision channel"
  let actorId ← requireString value.source.actorId "Human decision actor"
  let eventId ← requireString value.source.eventId "Human decision event"
  let idempotencyKey ← requireString value.idempotencyKey "Human decision idempotency key"
  pure ⟨request.decisionId, request.requestDigest, response.members, ⟨channel, actorId, eventId⟩,
    idempotencyKey⟩

/-- `provenance`, with the members that come with it. -/
inductive DecisionProvenance where
  | human (source : HumanDecisionAnswerSource) (idempotencyKey : String)
  | timeout

/-- `ResolvedHumanDecision`. -/
structure ResolvedHumanDecision where
  decisionId : String
  requestDigest : String
  response : HumanDecisionResponse
  provenance : DecisionProvenance
  acceptedAt : Int
  answerDigest : String
  subjectDigest : String
  presentationDigest : String
  revision : Nat

def ResolvedHumanDecision.json (dates : HostDates) (decision : ResolvedHumanDecision) : Json :=
  .obj ([("schema", .str "pi-workflows.human-decision-accepted.v1"),
    ("decisionId", .str decision.decisionId), ("requestDigest", .str decision.requestDigest),
    ("response", decision.response.json),
    ("acceptedAt", .str (dates.text decision.acceptedAt)),
    ("answerDigest", .str decision.answerDigest), ("subjectDigest", .str decision.subjectDigest),
    ("presentationDigest", .str decision.presentationDigest),
    ("revision", .num (.ofNat decision.revision))] ++
    match decision.provenance with
    | .human source idempotencyKey =>
        [("provenance", .str "human"), ("source", source.json),
          ("idempotencyKey", .str idempotencyKey)]
    | .timeout => [("provenance", .str "timeout")])

/-- `requireCurrentDecision`. -/
def isCurrentDecision (decision : Json) : Bool :=
  textMember decision "schema" = some "pi-workflows.human-decision-accepted.v1" ∧
    ∀ key ∈ ["subjectDigest", "presentationDigest", "revision"],
      (decision.member? key).isSome = true

/-- `sameHumanAnswer`. -/
def sameHumanAnswer (left right : Json) : Bool :=
  textMember left "provenance" = some "human" ∧ textMember right "provenance" = some "human" ∧
    left.member? "idempotencyKey" = right.member? "idempotencyKey" ∧
    (left.member? "response").map canonicalJson = (right.member? "response").map canonicalJson ∧
    (left.member? "source").map canonicalJson = (right.member? "source").map canonicalJson

/-! ## The store -/

/-- `human_decision_submissions.source`, of the answers. -/
inductive AnswerSource where
  | human
  | policy
  deriving DecidableEq, Repr

/-- `human_decision_submissions.outcome`. -/
inductive AnswerOutcome where
  | won
  | adopted
  | already_resolved
  | rejected
  deriving DecidableEq, Repr

/-- A row of `human_decision_submissions`, under its decision and attempt. -/
structure AnswerRow where
  source : AnswerSource
  actorId : Option String
  channel : Option String
  candidate : Json
  outcome : AnswerOutcome
  result : Option Json := none
  submittedAt : Int

/-- The database with the column `human_decisions.deadline_at` and the table
`human_decision_submissions`. -/
structure HumanDecisionStore where
  db : Db
  deadlines : Table String (Option Int)
  answers : Table (String × String) AnswerRow

/-- `HumanDecisionCancellationRecord.reason`. -/
inductive CancellationReason where
  | cancelled
  | expired
  deriving DecidableEq, Repr

def CancellationReason.text : CancellationReason → String
  | .cancelled => "cancelled"
  | .expired => "expired"

/-- `HumanDecisionResolution`. -/
inductive HumanDecisionResolution where
  | accepted (decision : Json)
  | cancelled (reason : CancellationReason)

/-- `HumanDecisionAcceptance.status`. -/
inductive AcceptanceStatus where
  | accepted
  | adopted
  | conflict
  deriving DecidableEq, Repr

/-- The attempt an acceptance is called with. -/
structure AcceptanceAttempt where
  attemptId : String
  source : AnswerSource
  actorId : Option String
  channel : Option String
  candidate : Json

/-- The clock as `accept` reads it: for its checks, for the record of the answer,
and in the transaction. -/
structure AnswerClock where
  checkedAt : Int
  attemptedAt : Int
  arbitratedAt : Int

namespace HumanDecisionStore

variable (sha256 : String → String) (dates : HostDates)
  (normalizeDecisionPresentation : Json → Except String Json) (s : HumanDecisionStore)

/-- `createRequest`. -/
def createRequest (request : HumanDecisionRequest) : Except String HumanDecisionStore := do
  let db ← createDecision s.db request.runId
    (validateHumanDecisionRequestIntegrity sha256 normalizeDecisionPresentation)
    request.decisionId request.json request.attemptId
  pure { s with
    db := db
    deadlines := (s.deadlines.insert? request.decisionId (request.expiresAt.bind dates.parse)).getD
      s.deadlines }

/-- `requireStoredRequest`. -/
def requireStoredRequest (request : HumanDecisionRequest) : Except String PUnit := do
  let row ← orThrow "Human decision request is not durable"
    (s.db.decisions.get? request.decisionId)
  let _ ← validateHumanDecisionRequestIntegrity sha256 normalizeDecisionPresentation row.request
  require (canonicalJson row.request = canonicalJson request.json)
    "Human decision request does not match durable state"

/-- A row of `human_decision_resolutions` as it is read. -/
def resolutionOf (row : ResolutionRow) : Except String HumanDecisionResolution :=
  match row.outcome with
  | .ok decision => do
      require (isCurrentDecision decision = true)
        ("Human decision state uses an incompatible alpha contract; " ++
          "reset the affected workflow run and decision state.")
      pure (.accepted decision)
  | .error reason => pure (.cancelled (if reason = "expired" then .expired else .cancelled))

/-- `readResolution`. -/
def readResolution (decisionId : String) : Except String (Option HumanDecisionResolution) :=
  match s.db.resolutions.get? decisionId with
  | none => .ok none
  | some row => do
      let decision ← orThrow "Human decision request is missing" (s.db.decisions.get? decisionId)
      let requestDigest ← validateHumanDecisionRequestIntegrity sha256
        normalizeDecisionPresentation decision.request
      require (row.requestDigest = requestDigest)
        "Human decision resolution request digest conflicts"
      (resolutionOf row).map some

/-- `assertRunOwner`. -/
def assertRunOwner (runId : String) (authority : Option RunWriteAuthority) (now : Int) :
    Except String PUnit := do
  let authority ← orThrow "Timeout policy requires the current run owner" authority
  let stale := "Timeout policy run ownership is stale"
  let _ ← orThrow stale (s.db.runs.get? runId)
  let lease ← orThrow stale (s.db.leases.get? runId)
  let owner ← orThrow stale lease.owner
  require (owner.type = authority.ownerType ∧ owner.id = authority.ownerId ∧
    lease.generation = authority.generation ∧ owner.tokenHash = sha256 authority.token ∧
    now < owner.expiresAt) stale

/-- The effects of a resolution, by its outcome. -/
def resolutionEffects (outcome : String) : List String :=
  if outcome = "accepted" then ["decision.settle_presentations"]
  else ["decision.cancel_parent", "decision.settle_presentations"]

/-- One effect of a resolution. -/
def enqueueResolutionEffect (request : HumanDecisionRequest) (outcome : String) (now : Int)
    (db : Db) (effectType : String) : Except String Db := do
  let effectId := "effect-" ++ shortDigest sha256
    (.obj [("decisionId", .str request.decisionId), ("effectType", .str effectType)])
  let effects ← orThrow "UNIQUE constraint failed: effects.effect_id"
    (db.effects.insert? effectId
      { sourceRun := none, sourceRevision := 2, effectType := effectType
        idempotencyKey := request.decisionId
        payload := storedJson (.obj [("decisionId", .str request.decisionId),
          ("runId", .str request.runId), ("outcome", .str outcome)])
        ownerScope := .run, status := .pending, attemptCount := 0, createdAt := now
        updatedAt := now })
  pure { db with effects := effects }

/-- `enqueueResolutionEffects`. -/
def enqueueResolutionEffects (db : Db) (request : HumanDecisionRequest) (outcome : String)
    (now : Int) : Except String Db :=
  (resolutionEffects outcome).foldlM (enqueueResolutionEffect sha256 request outcome now) db

/-- `markSubmission`. -/
def markSubmission (decisionId attemptId : String) (outcome : AnswerOutcome)
    (result : Option Json) : HumanDecisionStore :=
  { s with
    answers := s.answers.update (decisionId, attemptId) fun answer =>
      { answer with outcome := outcome, result := result } }

/-- `attemptAcceptance`, as far as it checks. -/
def checkAcceptance (request : HumanDecisionRequest) (authority : Option RunWriteAuthority)
    (attempt : AcceptanceAttempt) (arbitrationTime : Int) : Except String PUnit := do
  s.requireStoredRequest sha256 normalizeDecisionPresentation request
  let deadline ← orThrow "Human decision request is missing" (s.deadlines.get? request.decisionId)
  onlyIf (attempt.source = .human)
    (require (deadline.all fun deadline => arbitrationTime ≤ deadline)
      "Human decision request expired before the answer was accepted")
  onlyIf (attempt.source = .policy)
    (require (deadline.any fun deadline => deadline ≤ arbitrationTime)
      "Human decision timeout default is not eligible yet")
  onlyIf (attempt.source = .policy)
    (s.assertRunOwner sha256 request.runId authority arbitrationTime)
  require ((s.answers.get? (request.decisionId, attempt.attemptId)).all fun answer =>
      jsonHash sha256 answer.candidate = jsonHash sha256 attempt.candidate)
    "Human decision submission idempotency key conflicts"

/-- `INSERT INTO human_decision_submissions … ON CONFLICT DO NOTHING`. -/
def insertAnswer (decisionId : String) (attempt : AcceptanceAttempt) (submittedAt : Int) :
    HumanDecisionStore :=
  { s with
    answers := (s.answers.insert? (decisionId, attempt.attemptId)
      { source := attempt.source, actorId := attempt.actorId, channel := attempt.channel
        candidate := storedJson attempt.candidate, outcome := .rejected
        submittedAt := submittedAt }).getD s.answers }

/-- `attemptAcceptance` of a decision that is resolved. -/
def answerResolved (request : HumanDecisionRequest) (attempt : AcceptanceAttempt)
    (decision : ResolvedHumanDecision) (winner : HumanDecisionResolution) :
    Except String (HumanDecisionStore × AcceptanceStatus × Json) :=
  let marked := s.markSubmission request.decisionId attempt.attemptId .already_resolved none
  match winner with
  | .cancelled reason => .error s!"Human decision request was {reason.text}"
  | .accepted won =>
      if canonicalJson won = canonicalJson (decision.json dates) ∨
          sameHumanAnswer won (decision.json dates) = true then
        .ok (marked, .adopted, won)
      else .ok (marked, .conflict, won)

/-- `attemptAcceptance` of a decision that is open. -/
def resolveAccepted (request : HumanDecisionRequest) (attempt : AcceptanceAttempt)
    (decision : ResolvedHumanDecision) :
    Except String (HumanDecisionStore × AcceptanceStatus × Json) := do
  let now := decision.acceptedAt
  let response := storedJson (decision.json dates)
  let resolutions ← orThrow "UNIQUE constraint failed: human_decision_resolutions.decision_id"
    (s.db.resolutions.insert? request.decisionId
      { outcome := .ok response, actorId := attempt.actorId
        requestDigest := request.requestDigest, resolvedAt := now })
  let db ← enqueueResolutionEffects sha256 { s.db with resolutions := resolutions } request
    "accepted" now
  pure ({ s with db := db }.markSubmission request.decisionId attempt.attemptId .won
    (some response), .accepted, decision.json dates)

/-- `attemptAcceptance`. -/
def attemptAcceptance (request : HumanDecisionRequest) (authority : Option RunWriteAuthority)
    (decision : ResolvedHumanDecision) (attempt : AcceptanceAttempt) (arbitrationTime : Int) :
    Except String (HumanDecisionStore × AcceptanceStatus × Json) := do
  s.checkAcceptance sha256 normalizeDecisionPresentation request authority attempt arbitrationTime
  let recorded := s.insertAnswer request.decisionId attempt decision.acceptedAt
  let winner ← recorded.readResolution sha256 normalizeDecisionPresentation request.decisionId
  match winner with
  | some winner => recorded.answerResolved dates request attempt decision winner
  | none => recorded.resolveAccepted sha256 dates request attempt decision

/-- The id of the attempt an idempotency key stands for. -/
def answerAttemptId (decisionId idempotencyKey : String) : String :=
  shortDigest sha256
    (.obj [("decisionId", .str decisionId), ("idempotencyKey", .str idempotencyKey)])

/-- The decision a human made, and the attempt to accept it. -/
def humanAnswer (request : HumanDecisionRequest) (submission : HumanDecisionSubmission)
    (clock : AnswerClock) : Except String (ResolvedHumanDecision × AcceptanceAttempt) := do
  let _ ← validateHumanDecisionRequestIntegrity sha256 normalizeDecisionPresentation request.json
  let normalized ← validateHumanDecisionSubmission dates request submission clock.checkedAt
  let response ← validateHumanDecisionResponse request (.obj normalized.response)
  pure (
    { decisionId := request.decisionId, requestDigest := request.requestDigest
      response := response, provenance := .human normalized.source normalized.idempotencyKey
      acceptedAt := clock.attemptedAt
      answerDigest := digest sha256 (.obj [("requestDigest", .str request.requestDigest),
        ("response", response.json), ("source", normalized.source.json)])
      subjectDigest := request.subjectDigest, presentationDigest := request.presentationDigest
      revision := request.revision },
    { attemptId := answerAttemptId sha256 request.decisionId normalized.idempotencyKey
      source := .human, actorId := some normalized.source.actorId
      channel := some normalized.source.channel, candidate := normalized.json })

/-- `acceptSync`. -/
def accept (request : HumanDecisionRequest) (submission : HumanDecisionSubmission)
    (clock : AnswerClock) : Except String (HumanDecisionStore × AcceptanceStatus × Json) := do
  let (decision, attempt) ← humanAnswer sha256 dates normalizeDecisionPresentation request
    submission clock
  s.attemptAcceptance sha256 dates normalizeDecisionPresentation request none decision attempt
    clock.arbitratedAt

/-- The id of the attempt a timeout policy makes. -/
def timeoutAttemptId (decisionId : String) : String :=
  shortDigest sha256 (.obj [("decisionId", .str decisionId), ("provenance", .str "timeout")])

/-- The decision a timeout policy makes, and the attempt to accept it. -/
def policyAnswer (request : HumanDecisionRequest) (authority : Option RunWriteAuthority)
    (now : Int) : Except String (ResolvedHumanDecision × AcceptanceAttempt) := do
  let _ ← validateHumanDecisionRequestIntegrity sha256 normalizeDecisionPresentation request.json
  let expiresAt ← orThrow "Human decision request has no timeout default" request.expiresAt
  let defaultResponse ← orThrow "Human decision request has no timeout default"
    request.defaultResponse
  require ((dates.parse expiresAt).all fun expiry => expiry ≤ now)
    "Human decision timeout default is not eligible yet"
  s.assertRunOwner sha256 request.runId authority now
  let response ← validateHumanDecisionResponse request defaultResponse
  pure (
    { decisionId := request.decisionId, requestDigest := request.requestDigest
      response := response, provenance := .timeout, acceptedAt := now
      answerDigest := digest sha256 (.obj [("provenance", .str "timeout"),
        ("requestDigest", .str request.requestDigest), ("response", response.json)])
      subjectDigest := request.subjectDigest, presentationDigest := request.presentationDigest
      revision := request.revision },
    { attemptId := timeoutAttemptId sha256 request.decisionId, source := .policy
      actorId := authority.map RunWriteAuthority.ownerId, channel := none
      candidate := response.json })

/-- `resolveTimeoutSync`. -/
def resolveTimeout (request : HumanDecisionRequest) (authority : Option RunWriteAuthority)
    (now : Int) : Except String (HumanDecisionStore × AcceptanceStatus × Json) := do
  let (decision, attempt) ← s.policyAnswer sha256 dates normalizeDecisionPresentation request
    authority now
  s.attemptAcceptance sha256 dates normalizeDecisionPresentation request authority decision attempt
    now

/-- `cancel` of a decision that is open. -/
def resolveCancelled (request : HumanDecisionRequest) (reason : CancellationReason)
    (authority : Option RunWriteAuthority) (now : Int) : Except String HumanDecisionStore := do
  onlyIf (reason = .expired) (do
    let expiresAt ← orThrow "Human decision request has no expiry" request.expiresAt
    require ((dates.parse expiresAt).all fun expiry => expiry ≤ now)
      "Human decision expiry cancellation is not eligible yet"
    s.assertRunOwner sha256 request.runId authority now)
  let resolutions ← orThrow "UNIQUE constraint failed: human_decision_resolutions.decision_id"
    (s.db.resolutions.insert? request.decisionId
      { outcome := .error reason.text, actorId := none
        requestDigest := request.requestDigest, resolvedAt := now })
  let db ← enqueueResolutionEffects sha256 { s.db with resolutions := resolutions } request
    "cancelled" now
  pure { s with db := db }

/-- `cancel`; `true` if it found the decision cancelled for the same reason. -/
def cancel (request : HumanDecisionRequest) (reason : CancellationReason)
    (authority : Option RunWriteAuthority) (now : Int) :
    Except String (HumanDecisionStore × Bool) := do
  let _ ← validateHumanDecisionRequestIntegrity sha256 normalizeDecisionPresentation request.json
  require (¬ (reason = .expired ∧ request.defaultResponse.isSome = true))
    "A defaulted human decision must resolve through its timeout policy"
  s.requireStoredRequest sha256 normalizeDecisionPresentation request
  let winner ← s.readResolution sha256 normalizeDecisionPresentation request.decisionId
  match winner with
  | some (.cancelled other) => do
      require (other = reason)
        s!"Human decision was already cancelled with reason {other.text}"
      pure (s, true)
  | some (.accepted decision) =>
      let provenance := (textMember decision "provenance").getD "undefined"
      .error s!"Human decision was already accepted by {provenance}"
  | none => (s.resolveCancelled sha256 dates request reason authority now).map (·, false)

/-! ## Calls -/

/-- What is done to the decisions; `elsewhere` is any transaction of the database
that writes neither decisions nor resolutions. -/
inductive Action where
  | createRequest (request : HumanDecisionRequest)
  | accept (request : HumanDecisionRequest) (submission : HumanDecisionSubmission)
      (clock : AnswerClock)
  | resolveTimeout (request : HumanDecisionRequest) (authority : Option RunWriteAuthority)
      (now : Int)
  | cancel (request : HumanDecisionRequest) (reason : CancellationReason)
      (authority : Option RunWriteAuthority) (now : Int)
  | cancelWorkflowRun (runId : String) (claimToken : Option String) (now : Int)
  | elsewhere (change : Db → Db)

def step (s : HumanDecisionStore) : Action → Except String HumanDecisionStore
  | .createRequest request => s.createRequest sha256 dates normalizeDecisionPresentation request
  | .accept request submission clock =>
      (s.accept sha256 dates normalizeDecisionPresentation request submission clock).map Prod.fst
  | .resolveTimeout request authority now =>
      (s.resolveTimeout sha256 dates normalizeDecisionPresentation request authority now).map
        Prod.fst
  | .cancel request reason authority now =>
      (s.cancel sha256 dates normalizeDecisionPresentation request reason authority now).map
        Prod.fst
  | .cancelWorkflowRun runId claimToken now => do
      let (db, _) ← PiWorkflows.cancelWorkflowRun sha256 s.db runId claimToken now
      pure { s with db := db }
  | .elsewhere change =>
      .ok { s with
        db := { change s.db with decisions := s.db.decisions, resolutions := s.db.resolutions } }

/-- Calls in any order, by any number of callers. -/
def run (actions : List Action) : HumanDecisionStore :=
  Trace.served (step sha256 dates normalizeDecisionPresentation) s actions

end HumanDecisionStore

end PiWorkflows
