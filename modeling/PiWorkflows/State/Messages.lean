import PiWorkflows.State.Blobs

/-!
# Messages of workflows to Pi sessions (`state/workflow-messages.ts`)

A message is a row with an order number in its session and a content in the table
of blobs. It waits, is sent once Pi reports the session entry it became, and may
be cancelled or made to wait again. A sent message that asks for one is answered
by turns of the model.

Digests are kept as their hex text and times as numbers. Of the constraints of the
schema, only those are checked that these operations can run into: the foreign key
to `runs`, whose rows are given, and the index that allows one waiting message for
the source of a step. The others repeat what the operations see to themselves.
-/

namespace PiWorkflows

open Fallible

/-- `WORKFLOW_MESSAGE_CONTENT_SCHEMA`. -/
def WORKFLOW_MESSAGE_CONTENT_SCHEMA : String := "pi-workflows.workflow-message-content.v1"

/-- `WorkflowMessageKind`. -/
inductive WorkflowMessageKind where
  | step
  | decision
  | notification
  | terminal
  | followUp
  deriving DecidableEq, Repr

/-- A kind as it is written. -/
def WorkflowMessageKind.name : WorkflowMessageKind → String
  | .step => "step"
  | .decision => "decision"
  | .notification => "notification"
  | .terminal => "terminal"
  | .followUp => "followUp"

/-- `WorkflowMessageStatus`. -/
inductive WorkflowMessageStatus where
  | pending
  | sent
  | cancelled
  deriving DecidableEq, Repr

/-- `WorkflowTurnState`. -/
inductive WorkflowTurnState where
  | started
  | ended
  deriving DecidableEq, Repr

/-- `WorkflowTurnStopReason`. -/
inductive WorkflowTurnStopReason where
  | completed
  | aborted
  | error
  | lost
  deriving DecidableEq, Repr

/-- A row of `workflow_messages`. -/
structure WorkflowMessageRow where
  runId : String
  targetSessionId : String
  kind : WorkflowMessageKind
  sourceId : String
  contentHash : String
  triggerTurn : Bool
  orderNumber : Nat
  status : WorkflowMessageStatus
  piSessionEntryId : Option String
  createdAt : Int
  updatedAt : Int

/-- `WorkflowMessageSummary`. -/
structure WorkflowMessageSummary where
  workflowMessageId : String
  runId : String
  targetSessionId : String
  kind : WorkflowMessageKind
  sourceId : String
  contentDigest : String
  triggerTurn : Bool
  order : Nat
  status : WorkflowMessageStatus
  piSessionEntryId : Option String
  createdAt : Int
  updatedAt : Int

/-- `WorkflowMessage`. -/
structure WorkflowMessage extends WorkflowMessageSummary where
  content : Json

/-- A row of `workflow_turns`. -/
structure WorkflowTurnRow where
  workflowMessageId : String
  runId : String
  targetSessionId : String
  state : WorkflowTurnState
  stopReason : Option WorkflowTurnStopReason
  responseSessionEntryId : Option String
  startedAt : Int
  endedAt : Option Int

/-- `WorkflowTurn`. -/
structure WorkflowTurn extends WorkflowTurnRow where
  workflowTurnId : String

/-- `WorkflowBranchEntry`. -/
structure WorkflowBranchEntry where
  workflowMessageId : String
  piSessionEntryId : String

/-- `CreateWorkflowMessageOptions`. -/
structure CreateWorkflowMessageOptions where
  workflowMessageId : Option String := none
  runId : String
  targetSessionId : String
  kind : WorkflowMessageKind
  sourceId : String
  idempotencyKey : String
  content : Json
  now : Int

/-- The options of `startTurn`, with the id drawn for a turn that is given none. -/
structure StartTurnOptions where
  workflowMessageId : String
  workflowTurnId : String
  runId : String
  targetSessionId : String
  now : Int

/-- The options of `endTurn`. -/
structure EndTurnOptions where
  workflowMessageId : String
  workflowTurnId : String
  runId : String
  targetSessionId : String
  stopReason : WorkflowTurnStopReason
  responseSessionEntryId : Option String := none
  now : Int

structure WorkflowMessageStore where
  state : StateDatabase String
  runs : List String
  messages : Table String WorkflowMessageRow
  turns : Table String WorkflowTurnRow

/-! ## Contents -/

/-- `isWorkflowMessageContent`. -/
def isWorkflowMessageContent (value : Json) : Bool :=
  decide (textMember value "schema" = some WORKFLOW_MESSAGE_CONTENT_SCHEMA) &&
    (textMember value "customType").any (fun customType => decide (0 < customType.length)) &&
    (textMember value "content").isSome && (boolMember value "display").isSome &&
    (value.member? "details").isSome && (boolMember value "triggerTurn").isSome

/-- `content.triggerTurn`. -/
def triggersTurn (content : Json) : Bool :=
  decide (boolMember content "triggerTurn" = some true)

/-- `validateContent`. -/
def validateContent (content : Json) (kind : WorkflowMessageKind) : Except String Unit := do
  require (isWorkflowMessageContent content = true) "Workflow message content is invalid"
  require (kind = .terminal ∨
      triggersTurn content = decide (kind = .step ∨ kind = .followUp))
    s!"Workflow message kind {kind.name} has invalid turn behavior"

/-- `workflowMessageIdFor`. -/
def workflowMessageIdFor (sha256 : String → String) (kind : WorkflowMessageKind)
    (sourceId idempotencyKey : String) : String :=
  "workflow-message-" ++ sha256 (canonicalJson (.obj
    [("kind", .str kind.name), ("sourceId", .str sourceId),
      ("idempotencyKey", .str idempotencyKey)]))

/-- The id of the message that a call of `create` is about. -/
def CreateWorkflowMessageOptions.messageId (sha256 : String → String)
    (options : CreateWorkflowMessageOptions) : String :=
  options.workflowMessageId.getD
    (workflowMessageIdFor sha256 options.kind options.sourceId options.idempotencyKey)

/-- `assertSameMessage`. -/
def assertSameMessage (sha256 : String → String) (message : WorkflowMessage)
    (options : CreateWorkflowMessageOptions) : Except String Unit :=
  require (message.runId = options.runId ∧ message.targetSessionId = options.targetSessionId ∧
      message.kind = options.kind ∧ message.sourceId = options.sourceId ∧
      message.contentDigest = sha256 (canonicalJson options.content))
    s!"Workflow message idempotency conflict: {message.workflowMessageId}"

/-- `assertSameTurn`. -/
def assertSameTurn (turn : WorkflowTurn) (workflowMessageId runId targetSessionId : String) :
    Except String Unit :=
  require (turn.workflowMessageId = workflowMessageId ∧ turn.runId = runId ∧
      turn.targetSessionId = targetSessionId)
    s!"Workflow turn identity conflict: {turn.workflowTurnId}"

/-- `mapMessageSummary`. -/
def mapMessageSummary (workflowMessageId : String) (row : WorkflowMessageRow) :
    WorkflowMessageSummary where
  workflowMessageId := workflowMessageId
  runId := row.runId
  targetSessionId := row.targetSessionId
  kind := row.kind
  sourceId := row.sourceId
  contentDigest := row.contentHash
  triggerTurn := row.triggerTurn
  order := row.orderNumber
  status := row.status
  piSessionEntryId := row.piSessionEntryId
  createdAt := row.createdAt
  updatedAt := row.updatedAt

/-- `mapTurn`. -/
def mapTurn (workflowTurnId : String) (row : WorkflowTurnRow) : WorkflowTurn :=
  { row with workflowTurnId }

namespace WorkflowMessageStore

/-- A store without messages. -/
def fresh (state : StateDatabase String) (runs : List String) : WorkflowMessageStore :=
  ⟨state, runs, .empty, .empty⟩

variable (sha256 : String → String) (s : WorkflowMessageStore)

/-! ## Reading -/

/-- `mapMessage`. -/
def mapMessage (workflowMessageId : String) (row : WorkflowMessageRow) :
    Except String WorkflowMessage := do
  let content ← s.state.readJson row.contentHash
  require (isWorkflowMessageContent content = true) "Stored workflow message content is invalid"
  pure { mapMessageSummary workflowMessageId row with content }

/-- `get`. -/
def get (workflowMessageId : String) : Except String (Option WorkflowMessage) :=
  match s.messages.get? workflowMessageId with
  | none => pure none
  | some row => (s.mapMessage workflowMessageId row).map some

/-- `require`. -/
def requireMessage (workflowMessageId : String) : Except String WorkflowMessage := do
  let message ← s.get workflowMessageId
  orThrow s!"Workflow message not found: {workflowMessageId}" message

/-- `getTurn`. -/
def getTurn (workflowTurnId : String) : Option WorkflowTurn :=
  (s.turns.get? workflowTurnId).map (mapTurn workflowTurnId)

/-- `requireTurn`. -/
def requireTurn (workflowTurnId : String) : Except String WorkflowTurn :=
  orThrow s!"Workflow turn not found: {workflowTurnId}" (s.getTurn workflowTurnId)

/-- `openTurnForMessage`. -/
def openTurnForMessage (workflowMessageId : String) : Option WorkflowTurn :=
  (s.turns.find? fun _ row =>
    row.workflowMessageId = workflowMessageId ∧ row.state = .started).map fun e =>
      mapTurn e.1 e.2

/-- `openTurnsForSession`. -/
def openTurnsForSession (targetSessionId : String) : List WorkflowTurn :=
  ((s.turns.rows.filter fun e =>
    e.2.targetSessionId = targetSessionId ∧ e.2.state = .started).mergeSort fun e e' =>
      e.2.startedAt ≤ e'.2.startedAt).map fun e => mapTurn e.1 e.2

/-- `COALESCE(MAX(order_number), 0)`. -/
def lastOrder (targetSessionId : String) : Nat :=
  ((s.messages.rows.filter fun e => decide (e.2.targetSessionId = targetSessionId)).map fun e =>
    e.2.orderNumber).foldl max 0

/-- A message for the source of a step waits. -/
def pendingStepFor (sourceId : String) : Bool :=
  s.messages.any fun _ row =>
    row.sourceId = sourceId ∧ row.kind = .step ∧ row.status = .pending

/-! ## Messages -/

/-- The row of a new message. -/
def newMessage (options : CreateWorkflowMessageOptions) (contentHash : String) :
    WorkflowMessageRow where
  runId := options.runId
  targetSessionId := options.targetSessionId
  kind := options.kind
  sourceId := options.sourceId
  contentHash := contentHash
  triggerTurn := triggersTurn options.content
  orderNumber := s.lastOrder options.targetSessionId + 1
  status := .pending
  piSessionEntryId := none
  createdAt := options.now
  updatedAt := options.now

/-- `INSERT INTO workflow_messages`. -/
def insertMessage (workflowMessageId : String) (row : WorkflowMessageRow) :
    Except String WorkflowMessageStore := do
  require (row.runId ∈ s.runs) "FOREIGN KEY constraint failed"
  require (row.kind = .step → s.pendingStepFor row.sourceId = false)
    "UNIQUE constraint failed: workflow_messages.source_id"
  let messages ← orThrow "UNIQUE constraint failed: workflow_messages.workflow_message_id"
    (s.messages.insert? workflowMessageId row)
  pure { s with messages }

/-- `create`. -/
def create (options : CreateWorkflowMessageOptions) :
    Except String (WorkflowMessage × WorkflowMessageStore) := do
  validateContent options.content options.kind
  let workflowMessageId := options.messageId sha256
  match ← s.get workflowMessageId with
  | some existing => do
      assertSameMessage sha256 existing options
      pure (existing, s)
  | none => do
      let (contentHash, state) ← s.state.putJson sha256 options.content options.now
      let t ← { s with state }.insertMessage workflowMessageId (s.newMessage options contentHash)
      let message ← t.requireMessage workflowMessageId
      pure (message, t)

/-- Cancel the waiting messages that satisfy a condition, and count them. -/
def cancelPending (p : WorkflowMessageRow → Bool) (now : Int) : Nat × WorkflowMessageStore :=
  let affected := fun (row : WorkflowMessageRow) => decide (row.status = .pending) && p row
  ((s.messages.rows.filter fun e => affected e.2).length,
    { s with
      messages := s.messages.updateWhere (fun _ row => affected row) fun row =>
        { row with status := .cancelled, updatedAt := now } })

/-- `cancelPendingForSource`. -/
def cancelPendingForSource (sourceId : String) (kind : Option WorkflowMessageKind) (now : Int) :
    Nat × WorkflowMessageStore :=
  s.cancelPending (fun row => decide (row.sourceId = sourceId ∧ ∀ k ∈ kind, row.kind = k)) now

/-- `cancelPendingForRun`. -/
def cancelPendingForRun (runId : String) (now : Int)
    (kinds : List WorkflowMessageKind := [.step, .decision, .followUp]) :
    Nat × WorkflowMessageStore :=
  if kinds.length = 0 then (0, s)
  else s.cancelPending (fun row => decide (row.runId = runId ∧ row.kind ∈ kinds)) now

/-- The rows that `reopenMessage` changes. -/
def reopens (row : WorkflowMessageRow) : Prop :=
  (row.status = .sent ∨ row.status = .cancelled) ∧ (row.kind = .step ∨ row.kind = .decision)

instance (row : WorkflowMessageRow) : Decidable (reopens row) :=
  inferInstanceAs (Decidable (_ ∧ _))

/-- `reopenMessage`. -/
def reopenMessage (workflowMessageId : String) (now : Int) :
    Except String (Nat × WorkflowMessageStore) :=
  match s.messages.get? workflowMessageId with
  | none => pure (0, s)
  | some row =>
      if reopens row then do
        require (row.kind = .step → s.pendingStepFor row.sourceId = false)
          "UNIQUE constraint failed: workflow_messages.source_id"
        pure (1, { s with
          messages := s.messages.update workflowMessageId fun row =>
            { row with status := .pending, piSessionEntryId := none, updatedAt := now } })
      else pure (0, s)

/-- `UPDATE workflow_messages SET status = 'sent'`. -/
def markSent (entry : WorkflowBranchEntry) (now : Int) : WorkflowMessageStore :=
  { s with
    messages := s.messages.update entry.workflowMessageId fun row =>
      if row.status = .pending ∨ row.status = .cancelled then
        { row with
          status := .sent, piSessionEntryId := some entry.piSessionEntryId, updatedAt := now }
      else row }

/-- One round of `adoptBranch`. -/
def adoptEntry (targetSessionId : String) (allowedMessageIds : List String) (now : Int)
    (entry : WorkflowBranchEntry) : Except String (WorkflowMessage × WorkflowMessageStore) := do
  require (entry.workflowMessageId ∈ allowedMessageIds)
    s!"Workflow branch report contains an unknown message: {entry.workflowMessageId}"
  let current ← s.requireMessage entry.workflowMessageId
  require (current.targetSessionId = targetSessionId)
    "Workflow branch report targets the wrong origin session"
  require (¬ (current.status = .sent ∧ current.piSessionEntryId ≠ none ∧
      current.piSessionEntryId ≠ some entry.piSessionEntryId))
    "Workflow message has conflicting Pi session entry evidence"
  let t := if current.status = .sent then s else s.markSent entry now
  let message ← t.requireMessage entry.workflowMessageId
  pure (message, t)

/-- `adoptBranch`. -/
def adoptBranch (targetSessionId : String) (allowedMessageIds : List String) (now : Int)
    (s : WorkflowMessageStore) :
    List WorkflowBranchEntry → Except String (List WorkflowMessage × WorkflowMessageStore)
  | [] => pure ([], s)
  | entry :: entries => do
      let (message, s) ← s.adoptEntry targetSessionId allowedMessageIds now entry
      let (adopted, s) ← adoptBranch targetSessionId allowedMessageIds now s entries
      pure (message :: adopted, s)

/-! ## Turns -/

/-- The row of a new turn. -/
def newTurn (options : StartTurnOptions) : WorkflowTurnRow where
  workflowMessageId := options.workflowMessageId
  runId := options.runId
  targetSessionId := options.targetSessionId
  state := .started
  stopReason := none
  responseSessionEntryId := none
  startedAt := options.now
  endedAt := none

/-- What `startTurn` checks before it inserts a turn. -/
def checkStart (options : StartTurnOptions) : Except String Unit := do
  let message ← s.requireMessage options.workflowMessageId
  require (message.runId = options.runId ∧ message.targetSessionId = options.targetSessionId)
    "Workflow turn does not match its message"
  require (triggersTurn message.content = true) "Workflow message does not request a model turn"
  require (message.status = .sent) "Workflow turn requires a sent message"
  match s.openTurnForMessage options.workflowMessageId with
  | some turn =>
      .error <| s!"Workflow message {options.workflowMessageId} already has open turn " ++
        turn.workflowTurnId
  | none =>
      match (s.openTurnsForSession options.targetSessionId).head? with
      | some turn =>
          .error <| s!"Workflow session {options.targetSessionId} already has open turn " ++
            turn.workflowTurnId
      | none => pure ()

/-- `startTurn`. -/
def startTurn (options : StartTurnOptions) :
    Except String (WorkflowTurn × WorkflowMessageStore) :=
  match s.getTurn options.workflowTurnId with
  | some existing => do
      assertSameTurn existing options.workflowMessageId options.runId options.targetSessionId
      pure (existing, s)
  | none => do
      s.checkStart options
      let turns ← orThrow "UNIQUE constraint failed: workflow_turns.workflow_turn_id"
        (s.turns.insert? options.workflowTurnId (newTurn options))
      let t := { s with turns }
      let turn ← t.requireTurn options.workflowTurnId
      pure (turn, t)

/-- `UPDATE workflow_turns SET state = 'ended'`. -/
def closeTurn (options : EndTurnOptions) : WorkflowMessageStore :=
  { s with
    turns := s.turns.update options.workflowTurnId fun row =>
      if row.workflowMessageId = options.workflowMessageId ∧ row.state = .started then
        { row with
          state := .ended
          stopReason := some options.stopReason
          responseSessionEntryId := options.responseSessionEntryId
          endedAt := some options.now }
      else row }

/-- `endTurn`. -/
def endTurn (options : EndTurnOptions) :
    Except String (WorkflowTurn × WorkflowMessageStore) := do
  let current ← s.requireTurn options.workflowTurnId
  assertSameTurn current options.workflowMessageId options.runId options.targetSessionId
  if current.state = .ended then
    require (current.stopReason = some options.stopReason ∧
        current.responseSessionEntryId = options.responseSessionEntryId)
      "Workflow turn end report conflicts with its saved result"
    pure (current, s)
  else
    require (current.workflowMessageId = options.workflowMessageId ∧ current.state = .started)
      "Workflow turn changed before its end report"
    let t := s.closeTurn options
    let turn ← t.requireTurn options.workflowTurnId
    pure (turn, t)

/-! ## Runs -/

inductive Action where
  | create (options : CreateWorkflowMessageOptions)
  | adoptBranch (targetSessionId : String) (entries : List WorkflowBranchEntry)
      (allowedMessageIds : List String) (now : Int)
  | reopenMessage (workflowMessageId : String) (now : Int)
  | cancelPendingForSource (sourceId : String) (kind : Option WorkflowMessageKind) (now : Int)
  | cancelPendingForRun (runId : String) (now : Int) (kinds : List WorkflowMessageKind)
  | startTurn (options : StartTurnOptions)
  | endTurn (options : EndTurnOptions)

/-- One call, which is a transaction. -/
def step (s : WorkflowMessageStore) : Action → Except String WorkflowMessageStore
  | .create options => (s.create sha256 options).map Prod.snd
  | .adoptBranch targetSessionId entries allowedMessageIds now =>
      (s.adoptBranch targetSessionId allowedMessageIds now entries).map Prod.snd
  | .reopenMessage workflowMessageId now => (s.reopenMessage workflowMessageId now).map Prod.snd
  | .cancelPendingForSource sourceId kind now => .ok (s.cancelPendingForSource sourceId kind now).2
  | .cancelPendingForRun runId now kinds => .ok (s.cancelPendingForRun runId now kinds).2
  | .startTurn options => (s.startTurn options).map Prod.snd
  | .endTurn options => (s.endTurn options).map Prod.snd

end WorkflowMessageStore

end PiWorkflows
