import PiWorkflows.State.Messages
import PiWorkflows.Workflows.SettingsChange

/-!
# Follow-ups of a run (`workflows/store.ts`)

A follow-up is a prompt for the Pi session of a run, which gets it as a workflow message. A column
that holds a blob's hash holds its text here. Revisions, events and viewer deltas are left out.
Each call is a transaction, and its time comes in with it.
-/

namespace PiWorkflows

open Fallible

/-- A row of `workflow_follow_ups` with what a follow-up record shows of it. -/
structure FollowUp where
  runId : String
  requestId : String
  orderNumber : Nat
  targetSessionId : String
  actor : MutationActor
  sourceType : String
  prompt : String
  status : FollowUpStatus
  createdAt : Int
  updatedAt : Int

/-- What follow-ups need to know of a run. -/
structure FollowUpRun where
  status : StoredRunStatus
  originSessionId : Option String

/-- `WorkflowQueueFollowUpRequest`. -/
structure QueueFollowUpRequest where
  runId : String
  requestId : String
  targetSessionId : String
  actor : MutationActor
  source : String
  prompt : String

/-- `WorkflowRemoveFollowUpRequest`. -/
structure RemoveFollowUpRequest where
  runId : String
  followUpId : String
  actor : MutationActor
  source : String

structure FollowUpStore where
  runs : Table String FollowUpRun
  followUps : Table String FollowUp
  messages : WorkflowMessageStore

/-- `followUpIdFor`. -/
def followUpIdFor (sha256 : String → String) (runId requestId : String) : String :=
  "follow-up-" ++ String.ofList ((sha256 (runId ++ "\x00" ++ requestId)).toList.take 40)

/-- `followUpWorkflowMessageContent`. -/
def followUpWorkflowMessageContent (workflowMessageId followUpId runId prompt : String) : Json :=
  .obj [("schema", .str WORKFLOW_MESSAGE_CONTENT_SCHEMA),
    ("customType", .str "pi-workflows-follow-up"), ("content", .str prompt),
    ("display", .bool true),
    ("details", .obj [("workflowMessageId", .str workflowMessageId),
      ("followUpId", .str followUpId), ("runId", .str runId), ("kind", .str "followUp")]),
    ("triggerTurn", .bool true)]

/-- `assertSameFollowUp`. -/
def assertSameFollowUp (sha256 : String → String) (row : FollowUp)
    (request : QueueFollowUpRequest) : Except StoreError PUnit :=
  require (sha256 row.prompt = sha256 request.prompt ∧
      row.targetSessionId = request.targetSessionId ∧ row.actor = request.actor ∧
        row.sourceType = request.source)
    (.failed "Workflow follow-up request ID was reused with different content")

/-- `assertFollowUpRemovalAuthority`. -/
def assertFollowUpRemovalAuthority (row : FollowUp) (actor : MutationActor) (source : String) :
    Except StoreError PUnit :=
  require (actor.type = .human ∨ ((actor.type = .session ∨ actor.type = .resource_manager) ∧
      row.actor = actor ∧ row.sourceType = source))
    (.failed "Workflow follow-up can be removed only by its source or a verified human")

/-- `latestForSource`, without the reading of the content. -/
def WorkflowMessageStore.latestForSource (s : WorkflowMessageStore) (kind : WorkflowMessageKind)
    (sourceId : String) : Option (String × WorkflowMessageRow) :=
  (s.messages.rows.filter fun e => e.2.kind = kind ∧ e.2.sourceId = sourceId).foldl
    (fun latest e =>
      if latest.any fun l => l.2.createdAt > e.2.createdAt ∨
          (l.2.createdAt = e.2.createdAt ∧ l.2.orderNumber > e.2.orderNumber)
        then latest else some e)
    none

namespace FollowUpStore

variable (sha256 : String → String) (s : FollowUpStore)

/-- `followUpRowByRequest`. -/
def followUpRowByRequest (runId requestId : String) : Option (String × FollowUp) :=
  s.followUps.find? fun _ row => row.runId = runId ∧ row.requestId = requestId

/-- `nextFollowUpOrder`. -/
def nextFollowUpOrder (runId : String) : Nat :=
  ((s.followUps.rows.filter fun e => decide (e.2.runId = runId)).map fun e =>
    e.2.orderNumber).foldl max 0 + 1

/-- The row of a new follow-up. -/
def newFollowUp (request : QueueFollowUpRequest) (now : Int) : FollowUp where
  runId := request.runId
  requestId := request.requestId
  orderNumber := s.nextFollowUpOrder request.runId
  targetSessionId := request.targetSessionId
  actor := request.actor
  sourceType := request.source
  prompt := request.prompt
  status := .queued
  createdAt := now
  updatedAt := now

/-- `queueFollowUp`, with whether a follow-up was adopted. -/
def queueFollowUp (request : QueueFollowUpRequest) (now : Int) :
    Except StoreError ((String × FollowUp) × Bool × FollowUpStore) := do
  assertRequestId request.requestId
  assertSourceType request.source
  require (isBlank request.prompt = false)
    (.failed "Workflow follow-up prompt must be a non-empty string")
  require (request.prompt.utf8ByteSize ≤ 64 * 1024)
    (.failed "Workflow follow-up prompt cannot exceed 65536 bytes")
  match s.followUpRowByRequest request.runId request.requestId with
  | some prior => do
      assertSameFollowUp sha256 prior.2 request
      pure (prior, true, s)
  | none => do
      let run ← orThrow (.failed s!"Workflow run is missing: {request.runId}")
        (s.runs.get? request.runId)
      require (run.status = .running ∨ run.status = .waiting)
        (.failed s!"Workflow run {request.runId} does not accept changes with status {run.status.text}")
      require (run.originSessionId = some request.targetSessionId)
        (.failed "Workflow follow-ups must target the run's origin Pi session")
      let followUpId := followUpIdFor sha256 request.runId request.requestId
      let row := s.newFollowUp request now
      let followUps ← orThrow
        (.failed "UNIQUE constraint failed: workflow_follow_ups.follow_up_id")
        (s.followUps.insert? followUpId row)
      let workflowMessageId := workflowMessageIdFor sha256 .followUp followUpId "initial"
      let (_, messages) ← (s.messages.create sha256
        { workflowMessageId := some workflowMessageId
          runId := request.runId
          targetSessionId := request.targetSessionId
          kind := .followUp
          sourceId := followUpId
          idempotencyKey := "initial"
          content := followUpWorkflowMessageContent workflowMessageId followUpId request.runId
            request.prompt
          now }).mapError .failed
      pure ((followUpId, row), false, { s with followUps, messages })

/-- A queued follow-up gets another status, and its message is cancelled if it still waits. -/
def settleFollowUp (followUpId : String) (status : FollowUpStatus) (now : Int) : FollowUpStore :=
  { s with
    followUps := s.followUps.modify fun id row =>
      if id = followUpId ∧ row.status = .queued then { row with status, updatedAt := now } else row
    messages := (s.messages.cancelPendingForSource followUpId (some .followUp) now).2 }

/-- `removeFollowUp`. -/
def removeFollowUp (request : RemoveFollowUpRequest) (now : Int) :
    Except StoreError FollowUpStore := do
  assertSourceType request.source
  let row ← orThrow (.failed s!"Workflow follow-up not found: {request.followUpId}")
    (s.followUps.get? request.followUpId)
  require (row.runId = request.runId)
    (.failed s!"Workflow follow-up is not part of run {request.runId}")
  match row.status with
  | .removed _ => pure s
  | .cancelled _ => .error (.failed "A cancelled workflow follow-up cannot be removed")
  | .queued => do
      assertFollowUpRemovalAuthority row request.actor request.source
      require ((s.messages.latestForSource .followUp request.followUpId).all fun message =>
          decide (message.2.status ≠ .sent))
        (.failed "A sent workflow follow-up cannot be removed")
      pure (s.settleFollowUp request.followUpId (.removed "Removed before delivery") now)

/-- `transitionFollowUpsForRunState`, with the status that the run is saved with. -/
def transitionFollowUpsForRunState (runId : String) (status : StoredRunStatus)
    (error : Option String) (now : Int) : FollowUpStore :=
  let saved := { s with runs := s.runs.update runId fun run => { run with status } }
  if status = .running ∨ status = .waiting ∨ status = .completed then saved
  else
    let reason := error.getD s!"Workflow ended with status {status.text}"
    (s.followUps.rows.filter fun e => e.2.runId = runId ∧ e.2.status = .queued).foldl
      (fun s e => s.settleFollowUp e.1 (.cancelled reason) now) saved

/-! ## Runs -/

/-- What happens to follow-ups and to messages. Nobody else makes messages for follow-ups. -/
inductive Action where
  | queue (request : QueueFollowUpRequest) (now : Int)
  | remove (request : RemoveFollowUpRequest) (now : Int)
  | commit (runId : String) (status : StoredRunStatus) (error : Option String) (now : Int)
  | message (action : WorkflowMessageStore.Action)
      (hkind : ∀ options, action = .create options → options.kind ≠ .followUp)

/-- One call. -/
def step (s : FollowUpStore) : Action → Except StoreError FollowUpStore
  | .queue request now => (s.queueFollowUp sha256 request now).map fun r => r.2.2
  | .remove request now => s.removeFollowUp request now
  | .commit runId status error now =>
      .ok (s.transitionFollowUpsForRunState runId status error now)
  | .message action _ =>
      ((s.messages.step sha256 action).mapError .failed).map fun messages => { s with messages }

end FollowUpStore

end PiWorkflows
