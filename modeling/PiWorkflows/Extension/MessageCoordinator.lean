import PiWorkflows.Lib.Trace
import PiWorkflows.State.Messages

/-!
# Delivery of workflow messages to a Pi session (`extension/workflow-message-coordinator.ts`)

A pass of `synchronize` reads the server's view of the session, reports what Pi has of
the current message, reports a turn that Pi has begun or settled, and sends a waiting
message. It is suspended at each `await`, and everything else can happen before it goes
on: a new view, the end of a turn, the loss of the subscription, the end of the session,
another pass. Here a pass that is suspended is a value that says where it stands, and an
action either calls a method or lets one pass go on with a reply.

What Pi says while a stretch of a pass runs comes with the action, and so do the calls
that Pi makes from inside `abort` and `sendMessage`. Views are shared and written to, so
they have numbers (`views`), which is also how two of them are told apart. Of messages,
turns and receipts, the fields are kept that are read here. The log is not read by the
code; it says what happened.
-/

namespace PiWorkflows

/-! ## What the server and Pi say -/

/-- `WorkflowSessionMessage`. -/
structure SessionMessage where
  workflowMessageId : String
  runId : String
  kind : WorkflowMessageKind
  status : WorkflowMessageStatus
  piSessionEntryId : Option String
  triggerTurn : Bool
  contentDigest : String
  deliveryCancelled : Bool

/-- `WorkflowSessionView`. -/
structure SessionView where
  sessionId : String
  workflowMessage : Option SessionMessage
  openWorkflowTurn : Option WorkflowTurn
  coordinatorEpoch : Option String
  coordinatorActive : Bool
  branchReportRequired : Bool

/-- `messageById`. -/
def SessionView.messageById (view : SessionView) (workflowMessageId : String) :
    Option SessionMessage :=
  view.workflowMessage.filter fun message => message.workflowMessageId = workflowMessageId

/-- An entry of the branch of the Pi session. -/
inductive BranchEntry where
  | user
  | custom (id : Option String) (workflowMessageId : Option String)
  | other

/-- `branchWorkflowEntries`. -/
def branchWorkflowEntries (entries : List BranchEntry) : List (String × String) :=
  entries.foldl
    (fun found entry =>
      match entry with
      | .custom (some id) (some workflowMessageId) => Assoc.setKey workflowMessageId id found
      | _ => found)
    []

/-- The loop of `latestTurnInputIsWorkflow`, from the latest entry on. -/
def latestInputIs (workflowMessageId : String) : List BranchEntry → Bool
  | [] => false
  | .user :: _ => false
  | .custom _ named :: _ => named = some workflowMessageId
  | .other :: rest => latestInputIs workflowMessageId rest

/-- `latestTurnInputIsWorkflow`. -/
def latestTurnInputIsWorkflow (entries : List BranchEntry) (workflowMessageId : String) : Bool :=
  latestInputIs workflowMessageId entries.reverse

/-- What Pi answers at some moment. -/
structure PiState where
  isIdle : Bool
  hasPendingMessages : Bool
  branch : List BranchEntry

def PiState.entryOf (pi : PiState) (workflowMessageId : String) : Option String :=
  (branchWorkflowEntries pi.branch).lookup workflowMessageId

/-- What Pi calls when a model turn begins and when it has settled. -/
inductive PiCall where
  | startTurn
  | endTurn (stopReason : WorkflowTurnStopReason) (responseSessionEntryId : Option String)

/-- Pi during one stretch of a pass: what it says before and after `abort` and after
`sendMessage`, what it calls meanwhile, and whether `sendMessage` returns. The id is the one
that is drawn if a turn is made. -/
structure PiDuring where
  start : PiState
  onAbort : List PiCall
  afterAbort : PiState
  freshTurnId : String
  onSend : List PiCall
  sendReturns : Bool
  afterSend : PiState

/-- `WorkflowTurnReportReceipt`. -/
inductive TurnOwnership where
  | active
  | settled
  | absent
  deriving DecidableEq

structure TurnReceipt where
  ownership : TurnOwnership
  turn : Option WorkflowTurn

/-- The check of a receipt in `reportTurn`. -/
def TurnReceipt.isValid (receipt : TurnReceipt) (view : SessionView) (message : SessionMessage)
    (workflowTurnId : String) : Bool :=
  match receipt.ownership, receipt.turn with
  | .absent, turn => turn.isNone
  | _, none => false
  | ownership, some turn =>
      turn.workflowTurnId = workflowTurnId && turn.workflowMessageId = message.workflowMessageId &&
        turn.runId = message.runId && turn.targetSessionId = view.sessionId &&
        turn.state = if ownership = .active then .started else .ended

/-! ## The coordinator -/

inductive TurnPhase where
  | delivering
  | running
  | settled (stopReason : WorkflowTurnStopReason) (responseSessionEntryId : Option String)
  deriving DecidableEq

/-- `OwnedTurn`. -/
structure OwnedTurn where
  workflowTurnId : String
  message : SessionMessage
  startedReported : Bool
  entryReported : Bool
  stopRequested : Bool
  abortSent : Bool
  phase : TurnPhase

/-- `PreparedContent`, without the content itself. -/
structure PreparedContent where
  workflowMessageId : String
  contentDigest : String
  deriving DecidableEq

/-- The place behind an `await` in `synchronize`. -/
inductive PassStage where
  | prepared
  | ownedReported
  | firstFlushed
  | branchReported
  | flushed
  | existingReported
  | sentReported
  | lastFlushed
  deriving DecidableEq

/-- What a suspended pass waits for: only its turn to go on, or a request or a callback, and
the stage that comes then. -/
inductive Await where
  | resumption (stage : PassStage)
  | hydration (message : SessionMessage)
  | branchReport (reported : Option SessionMessage) (owned : Bool) (entry : Option String)
      (next : PassStage)
  | startReport (workflowTurnId : String) (message : SessionMessage) (next : PassStage)
  | beforeTurnEnd (workflowTurnId : String) (message : SessionMessage)
      (stopReason : WorkflowTurnStopReason) (responseSessionEntryId : Option String) (next : PassStage)
  | endReport (workflowTurnId : String) (message : SessionMessage)
      (stopReason : WorkflowTurnStopReason) (responseSessionEntryId : Option String) (next : PassStage)
  | terminalDelivered (message : SessionMessage)

/-- A suspended pass: its view, and the entries it has read of the branch. -/
structure SuspendedPass where
  view : Nat
  branchEntries : List (String × String)
  await : Await

inductive DropCause where
  | cleared
  | sendFailed
  | ended
  deriving DecidableEq

/-- What happened. -/
inductive CoordinatorEvent where
  | viewed (v : Nat) (view : SessionView)
  | fenced
  | cleared
  | owned (workflowTurnId : String)
  | sent (v : Nat) (workflowMessageId : String)
  | dropped (workflowTurnId : String) (cause : DropCause)
  | settled (workflowTurnId : String) (stopReason : WorkflowTurnStopReason)
      (responseSessionEntryId : Option String)
  | entryReported (workflowMessageId : String)
  | startReported (v : Nat) (workflowTurnId workflowMessageId : String)
  | endReported (workflowTurnId : String) (stopReason : WorkflowTurnStopReason)
      (responseSessionEntryId : Option String)
  | endAccepted (workflowTurnId : String)

/-- `WorkflowMessageCoordinator`, with the views it was given and its suspended passes. -/
structure Coordinator where
  queued : List String
  closedTurnMessages : List String
  finalizedTerminals : List String
  synchronizing : Bool
  lastBranchEpoch : Option String
  view : Option Nat
  turn : Option OwnedTurn
  content : Option PreparedContent
  fenced : Bool
  views : List SessionView
  passes : List SuspendedPass
  log : List CoordinatorEvent

namespace Coordinator

/-- A new coordinator. -/
def initial : Coordinator where
  queued := []
  closedTurnMessages := []
  finalizedTerminals := []
  synchronizing := false
  lastBranchEpoch := none
  view := none
  turn := none
  content := none
  fenced := false
  views := []
  passes := []
  log := []

def note (c : Coordinator) (event : CoordinatorEvent) : Coordinator :=
  { c with log := c.log ++ [event] }

def suspend (c : Coordinator) (pass : SuspendedPass) : Coordinator :=
  { c with passes := c.passes ++ [pass] }

/-- The `finally` of a pass. -/
def finish (c : Coordinator) : Coordinator :=
  { c with synchronizing := false }

def currentView (c : Coordinator) : Option SessionView :=
  c.view.bind fun v => c.views[v]?

/-- A change of the turn that is owned, if one is. -/
def mapTurn (c : Coordinator) (f : OwnedTurn → OwnedTurn) : Coordinator :=
  { c with turn := c.turn.map f }

/-! ## Calls from outside -/

/-- What a view of the message asks of the owned turn. -/
def stopIfCancelled (message : Option SessionMessage) (turn : OwnedTurn) : OwnedTurn :=
  match message with
  | none => turn
  | some message =>
      if message.workflowMessageId = turn.message.workflowMessageId ∧ message.deliveryCancelled then
        { turn with stopRequested := true }
      else turn

/-- `updateView`. -/
def updateView (view : SessionView) (c : Coordinator) : Coordinator :=
  let isCurrent (messageId : String) : Bool :=
    some messageId = view.workflowMessage.map SessionMessage.workflowMessageId
  let settled (messageId : String) : Bool :=
    (view.messageById messageId).any fun message => message.status ≠ .pending
  ({ c with
    views := c.views ++ [view]
    view := some c.views.length
    fenced := false
    turn := c.turn.map (stopIfCancelled view.workflowMessage)
    queued := (c.queued.filter isCurrent).filter fun messageId => !settled messageId
    closedTurnMessages := c.closedTurnMessages.filter isCurrent
    finalizedTerminals := c.finalizedTerminals.filter isCurrent }).note (.viewed c.views.length view)

/-- `branchChanged`. -/
def branchChanged (c : Coordinator) : Coordinator :=
  { c with lastBranchEpoch := none }

/-- `startTurn` and `endTurn`. -/
def piCall (c : Coordinator) : PiCall → Coordinator
  | .startTurn =>
      c.mapTurn fun turn => if turn.phase = .delivering then { turn with phase := .running } else turn
  | .endTurn stopReason responseSessionEntryId =>
      match c.turn with
      | none => c
      | some turn =>
          if turn.phase = .running then
            ({ c with turn := some { turn with
              phase := .settled stopReason responseSessionEntryId } }).note
                (.settled turn.workflowTurnId stopReason responseSessionEntryId)
          else c

/-- `fence`. -/
def fence (c : Coordinator) : Coordinator :=
  ({ c with fenced := true }).note .fenced

/-- The turn is no longer owned. -/
def dropTurn (cause : DropCause) (c : Coordinator) : Coordinator :=
  match c.turn with
  | none => c
  | some turn => ({ c with turn := none }).note (.dropped turn.workflowTurnId cause)

/-- `clear`. -/
def clear (c : Coordinator) : Coordinator :=
  ({ c.dropTurn .cleared with
    queued := []
    closedTurnMessages := []
    finalizedTerminals := []
    view := none
    content := none
    lastBranchEpoch := none
    synchronizing := false
    fenced := false }).note .cleared

/-- Whether `abortCancelledTurn` goes on to abort. -/
def abortsTurn (c : Coordinator) (isIdle : Bool) : Bool :=
  c.currentView.any SessionView.coordinatorActive && !isIdle &&
    c.turn.any fun turn => turn.phase = .running && turn.stopRequested && !turn.abortSent

/-- `abortCancelledTurn`. -/
def abortCancelledTurn (isIdle : Bool) (onAbort : List PiCall) (c : Coordinator) : Coordinator :=
  if c.abortsTurn isIdle then
    onAbort.foldl piCall (c.mapTurn fun turn => { turn with abortSent := true })
  else c

/-! ## Reports -/

/-- `workflowTurn.report` of the end, and the pass that waits for its receipt. -/
def reportEnd (c : Coordinator) (pass : SuspendedPass) (workflowTurnId : String)
    (message : SessionMessage) (stopReason : WorkflowTurnStopReason)
    (responseSessionEntryId : Option String) (next : PassStage) : Coordinator :=
  (c.note (.endReported workflowTurnId stopReason responseSessionEntryId)).suspend
    { pass with
      await := .endReport workflowTurnId message stopReason responseSessionEntryId next }

/-- The second half of `flushTurn`, for a turn that needs no start report any more. -/
def flushEnd (c : Coordinator) (pass : SuspendedPass) (pending : OwnedTurn)
    (message : SessionMessage) (next : PassStage) : Coordinator :=
  match pending.phase with
  | .settled stopReason responseSessionEntryId =>
      if pending.stopRequested then
        c.reportEnd pass pending.workflowTurnId message stopReason responseSessionEntryId next
      else
        c.suspend { pass with
          await := .beforeTurnEnd pending.workflowTurnId message stopReason
            responseSessionEntryId next }
  | _ => c.suspend { pass with await := .resumption next }

/-- `workflowTurn.report` of the start. -/
def reportStart (c : Coordinator) (pass : SuspendedPass) (pending : OwnedTurn)
    (message : SessionMessage) (next : PassStage) : Coordinator :=
  (c.note (.startReported pass.view pending.workflowTurnId message.workflowMessageId)).suspend
    { pass with await := .startReport pending.workflowTurnId message next }

/-- `flushTurn`, up to its first `await`. -/
def flushTurn (c : Coordinator) (pass : SuspendedPass) (view : SessionView) (next : PassStage) :
    Coordinator :=
  let done := c.suspend { pass with await := .resumption next }
  match c.turn with
  | none => done
  | some pending =>
      if pending.phase = .delivering ∨ view.coordinatorEpoch = none ∨
          c.lastBranchEpoch ≠ view.coordinatorEpoch then done
      else if pending.startedReported ∨ pending.stopRequested then
        c.flushEnd pass pending pending.message next
      else
        match view.messageById pending.message.workflowMessageId with
        | some confirmed =>
            if confirmed.status = .sent then c.reportStart pass pending confirmed next else done
        | none => if pending.entryReported then c.reportStart pass pending pending.message next else done

/-- `reportBranch`, up to its `await`. -/
def reportBranch (c : Coordinator) (pass : SuspendedPass) (view : SessionView)
    (ownedDelivery : Option SessionMessage) (next : PassStage) (pi : PiState) : Coordinator :=
  if view.coordinatorEpoch = none then c.suspend { pass with await := .resumption next }
  else
    let reported := ownedDelivery <|> view.workflowMessage
    let entry := reported.bind fun message => pi.entryOf message.workflowMessageId
    c.suspend { pass with await := .branchReport reported ownedDelivery.isSome entry next }

/-- A message that is known to have become an entry of the session. -/
def markSent (workflowMessageId entry : String) (view : SessionView) : SessionView :=
  { view with
    workflowMessage := view.workflowMessage.map fun message =>
      if message.workflowMessageId = workflowMessageId then
        { message with status := .sent, piSessionEntryId := some entry }
      else message }

/-- What `reportBranch` keeps of the entry it has reported. -/
def confirmEntry (c : Coordinator) (v : Nat) (reported : Option SessionMessage) (owned : Bool)
    (entry : Option String) : Coordinator :=
  match reported, entry with
  | some message, some entry =>
      let c := c.note (.entryReported message.workflowMessageId)
      if owned then
        c.mapTurn fun turn =>
          if turn.message.workflowMessageId = message.workflowMessageId then
            { turn with entryReported := true }
          else turn
      else
        { c with
          views := c.views.modify v (markSent message.workflowMessageId entry)
          queued := c.queued.filter (· ≠ message.workflowMessageId) }
  | _, _ => c

/-- `reportBranch`, once the server has accepted the report. -/
def branchReported (c : Coordinator) (pass : SuspendedPass) (view : SessionView)
    (reported : Option SessionMessage) (owned : Bool) (entry : Option String) (next : PassStage) :
    Coordinator :=
  let confirmed := c.confirmEntry pass.view reported owned entry
  let known := if owned then confirmed
    else { confirmed with lastBranchEpoch := view.coordinatorEpoch }
  known.suspend { pass with await := .resumption next }

/-- `flushTurn`, once the receipt of the start has arrived. -/
def startAnswered (c : Coordinator) (pass : SuspendedPass) (workflowTurnId : String)
    (message : SessionMessage) (next : PassStage) (receipt : TurnReceipt) : Coordinator :=
  let done := c.suspend { pass with await := .resumption next }
  match c.turn with
  | none => done
  | some pending =>
      if pending.workflowTurnId ≠ workflowTurnId then done
      else if receipt.ownership = .active ∨
          receipt.ownership = .settled ∧ pending.phase ≠ .delivering ∧ pending.phase ≠ .running then
        let pending := { pending with message, startedReported := true }
        ({ c with turn := some pending }).flushEnd pass pending message next
      else
        ({ c with turn := some { pending with stopRequested := true } }).suspend
          { pass with await := .resumption next }

/-- `current.openWorkflowTurn = null`, for the turn that was reported. -/
def closeOpenTurn (workflowTurnId : String) (view : SessionView) : SessionView :=
  { view with
    openWorkflowTurn := view.openWorkflowTurn.filter fun turn =>
      turn.workflowTurnId ≠ workflowTurnId }

def closeIn (workflowTurnId : String) (c : Coordinator) (v : Nat) : Coordinator :=
  { c with views := c.views.modify v (closeOpenTurn workflowTurnId) }

/-- `flushTurn`, once the receipt of the end has arrived. -/
def endAnswered (c : Coordinator) (pass : SuspendedPass) (workflowTurnId : String)
    (message : SessionMessage) (next : PassStage) : Coordinator :=
  let accepted := c.note (.endAccepted workflowTurnId)
  let closed :=
    if message.kind = .followUp ∨ message.kind = .terminal then
      { accepted with
        closedTurnMessages := accepted.closedTurnMessages ++ [message.workflowMessageId] }
    else accepted
  let settled := (pass.view :: closed.view.toList).foldl (closeIn workflowTurnId) closed
  (dropTurn .ended settled).suspend { pass with await := .resumption next }

/-! ## A pass -/

/-- `contentFor`. -/
def hasContentFor (c : Coordinator) (message : SessionMessage) : Bool :=
  c.content = some ⟨message.workflowMessageId, message.contentDigest⟩

/-- `turnCandidate`. -/
def turnCandidate (c : Coordinator) : Option SessionMessage := do
  let view ← c.currentView
  let current ← view.workflowMessage
  if (view.openWorkflowTurn.any fun turn =>
        turn.workflowMessageId = current.workflowMessageId) ∧
      current.workflowMessageId ∉ c.closedTurnMessages ∧ current.triggerTurn then some current
  else if current.workflowMessageId ∈ c.queued ∧ current.triggerTurn then some current
  else none

/-- The turn that a pass takes over from its view, if it takes one over. -/
def adoptedTurn (c : Coordinator) (view : SessionView) (pi : PiState) : Option OwnedTurn :=
  if c.turn.isSome ∨ pi.isIdle then none
  else do
    let candidate ← c.turnCandidate
    let turn ← view.openWorkflowTurn
    if turn.state = .started ∧ turn.workflowMessageId = candidate.workflowMessageId ∧
        turn.runId = candidate.runId ∧ turn.targetSessionId = view.sessionId ∧
        latestTurnInputIsWorkflow pi.branch candidate.workflowMessageId then
      some {
        workflowTurnId := turn.workflowTurnId
        message := candidate
        startedReported := true
        entryReported := false
        stopRequested := (view.messageById candidate.workflowMessageId).any
          SessionMessage.deliveryCancelled
        abortSent := false
        phase := .running }
    else none

/-- A new owner of a turn. -/
def own (c : Coordinator) (turn : OwnedTurn) : Coordinator :=
  ({ c with turn := some turn }).note (.owned turn.workflowTurnId)

/-- The open turn of the view, taken over where Pi is at work on it. -/
def takeOver (c : Coordinator) (view : SessionView) (pi : PiState) : Coordinator :=
  match c.adoptedTurn view pi with
  | none => c
  | some turn => c.own turn

/-- `unreportedOwnedDelivery`. -/
def unreportedOwnedDelivery (c : Coordinator) (view : SessionView) (pi : PiState) :
    Option SessionMessage := do
  let turn ← c.turn
  if turn.startedReported ∨ turn.entryReported ∨
      (view.messageById turn.message.workflowMessageId).isSome ∨
      pi.entryOf turn.message.workflowMessageId = none then none
  else some turn.message

/-- `hasUnconfirmedBranchEntry`. -/
def hasUnconfirmedBranchEntry (view : SessionView) (pi : PiState) : Bool :=
  view.workflowMessage.any fun current =>
    current.status ≠ .sent && (pi.entryOf current.workflowMessageId).isSome

/-- The stretch behind the first flush. -/
def afterFirstFlush (c : Coordinator) (pass : SuspendedPass) (view : SessionView) (pi : PiState) :
    Coordinator :=
  if view.branchReportRequired ∨ c.lastBranchEpoch ≠ view.coordinatorEpoch ∨
      hasUnconfirmedBranchEntry view pi then
    c.reportBranch pass view none .branchReported pi
  else c.flushTurn pass view .flushed

/-- The stretch behind the report of an owned delivery. -/
def afterOwnedReport (c : Coordinator) (pass : SuspendedPass) (view : SessionView) (pi : PiState) :
    Coordinator :=
  if c.turn.any fun turn => turn.phase ≠ .delivering && turn.phase ≠ .running then
    c.flushTurn pass view .firstFlushed
  else c.afterFirstFlush pass view pi

/-- The stretch behind `prepareContent`. -/
def afterPrepared (c : Coordinator) (pass : SuspendedPass) (view : SessionView) (pi : PiDuring) :
    Coordinator :=
  let pass := { pass with branchEntries := branchWorkflowEntries pi.start.branch }
  let c := (c.takeOver view pi.start).abortCancelledTurn pi.start.isIdle pi.onAbort
  match c.unreportedOwnedDelivery view pi.afterAbort with
  | some delivery => c.reportBranch pass view (some delivery) .ownedReported pi.afterAbort
  | none => c.afterOwnedReport pass view pi.afterAbort

/-- The current message, if nothing keeps the pass from handing it to Pi. -/
def deliverable (c : Coordinator) (view : SessionView) (pi : PiState) : Option SessionMessage :=
  view.workflowMessage.filter fun message =>
    message.workflowMessageId ∉ c.queued && message.status = .pending && pi.isIdle &&
      !pi.hasPendingMessages && c.hasContentFor message

/-- The final checks before `sendMessage`. -/
def maySend (c : Coordinator) (pass : SuspendedPass) (view : SessionView) : Bool :=
  c.view = some pass.view && view.coordinatorActive && view.coordinatorEpoch.isSome

/-- `sendMessage`, and the report behind it. -/
def send (c : Coordinator) (pass : SuspendedPass) (view : SessionView) (message : SessionMessage)
    (pi : PiDuring) : Coordinator :=
  let owned :=
    if message.triggerTurn then
      c.own {
        workflowTurnId := pi.freshTurnId
        message
        startedReported := false
        entryReported := false
        stopRequested := false
        abortSent := false
        phase := .delivering }
    else c
  let called := pi.onSend.foldl piCall (owned.note (.sent pass.view message.workflowMessageId))
  if pi.sendReturns then called.reportBranch pass view none .sentReported pi.afterSend
  else
    let undone := { called with
      queued := called.queued.filter (· ≠ message.workflowMessageId) }
    if undone.turn.any fun turn => turn.phase = .delivering &&
        turn.message.workflowMessageId = message.workflowMessageId then
      (dropTurn .sendFailed undone).finish
    else undone.finish

/-- The stretch behind the handling of a terminal message. -/
def deliver (c : Coordinator) (pass : SuspendedPass) (view : SessionView) (pi : PiState)
    (during : PiDuring) : Coordinator :=
  match c.deliverable view pi with
  | none => c.finish
  | some message =>
      let queued := { c with queued := c.queued ++ [message.workflowMessageId] }
      if (pi.entryOf message.workflowMessageId).isSome then
        queued.reportBranch pass view none .existingReported pi
      else if c.maySend pass view then queued.send pass view message during
      else c.finish

/-- The terminal message whose delivery is to be announced. -/
def unannouncedTerminal (c : Coordinator) (pass : SuspendedPass) (view : SessionView) :
    Option SessionMessage :=
  view.workflowMessage.filter fun current =>
    current.kind = .terminal && !current.triggerTurn && current.status = .sent &&
      (pass.branchEntries.lookup current.workflowMessageId).isSome &&
      decide (current.workflowMessageId ∉ c.finalizedTerminals)

/-- The stretch behind the second flush. -/
def afterFlush (c : Coordinator) (pass : SuspendedPass) (view : SessionView) (pi : PiDuring) :
    Coordinator :=
  let c := c.abortCancelledTurn pi.start.isIdle pi.onAbort
  if c.turn.isSome ∨ !pi.afterAbort.isIdle ∨ pi.afterAbort.hasPendingMessages then c.finish
  else
    match c.unannouncedTerminal pass view with
    | some current => c.suspend { pass with await := .terminalDelivered current }
    | none => c.deliver pass view pi.afterAbort pi

/-- A pass that goes on behind an `await`. -/
def continueAt (c : Coordinator) (pass : SuspendedPass) (view : SessionView) (pi : PiDuring) :
    PassStage → Coordinator
  | .prepared => c.afterPrepared pass view pi
  | .ownedReported => c.afterOwnedReport pass view pi.start
  | .firstFlushed => c.afterFirstFlush pass view pi.start
  | .branchReported => c.flushTurn pass view .flushed
  | .flushed => c.afterFlush pass view pi
  | .existingReported => c.finish
  | .sentReported => c.flushTurn pass view .lastFlushed
  | .lastFlushed => (c.abortCancelledTurn pi.start.isIdle pi.onAbort).finish

/-- `prepareContent`, up to its `await`. -/
def prepareContent (c : Coordinator) (v : Nat) (view : SessionView) : Coordinator :=
  match view.workflowMessage with
  | none => ({ c with content := none }).suspend ⟨v, [], .resumption .prepared⟩
  | some message =>
      if c.hasContentFor message then c.suspend ⟨v, [], .resumption .prepared⟩
      else ({ c with content := none }).suspend ⟨v, [], .hydration message⟩

/-- `synchronize`, up to its first `await`. -/
def synchronize (pi : PiDuring) (c : Coordinator) : Coordinator :=
  let c := c.abortCancelledTurn pi.start.isIdle pi.onAbort
  if c.synchronizing ∨ c.fenced then c
  else
    match c.view, c.currentView with
    | some v, some view =>
        if view.coordinatorActive ∧ view.coordinatorEpoch ≠ none then
          ({ c with synchronizing := true }).prepareContent v view
        else c
    | _, _ => c

/-! ## What can happen -/

/-- What an `await` comes to. -/
inductive Reply where
  | resumed
  | failed
  | hydrated (isVerified : Bool)
  | accepted
  | receipt (receipt : TurnReceipt)

/-- A pass that gets what it waits for. A reply of another kind is none for it. -/
def answer (c : Coordinator) (pass : SuspendedPass) (view : SessionView) (pi : PiDuring) :
    Await → Reply → Option Coordinator
  | .resumption stage, .resumed => some (c.continueAt pass view pi stage)
  | .resumption _, _ => none
  | _, .failed => some c.finish
  | .hydration message, .hydrated isVerified =>
      if isVerified then
        some (({ c with
          content := some ⟨message.workflowMessageId, message.contentDigest⟩ }).suspend
            { pass with await := .resumption .prepared })
      else some c.finish
  | .branchReport reported owned entry next, .accepted =>
      some (c.branchReported pass view reported owned entry next)
  | .startReport workflowTurnId message next, .receipt receipt =>
      if receipt.isValid view message workflowTurnId then
        some (c.startAnswered pass workflowTurnId message next receipt)
      else some c.finish
  | .beforeTurnEnd workflowTurnId message stopReason responseSessionEntryId next, .resumed =>
      some (c.reportEnd pass workflowTurnId message stopReason responseSessionEntryId next)
  | .endReport workflowTurnId message _ _ next, .receipt receipt =>
      if receipt.isValid view message workflowTurnId then
        some (c.endAnswered pass workflowTurnId message next)
      else some c.finish
  | .terminalDelivered message, .resumed =>
      some (({ c with
        finalizedTerminals := c.finalizedTerminals ++ [message.workflowMessageId] }).deliver pass
          view pi.start pi)
  | _, _ => none

/-- A suspended pass goes on. -/
def resume (index : Nat) (reply : Reply) (pi : PiDuring) (c : Coordinator) : Coordinator :=
  match c.passes[index]? with
  | none => c
  | some pass =>
      match c.views[pass.view]? with
      | none => c
      | some view =>
          (({ c with passes := c.passes.eraseIdx index }).answer pass view pi pass.await
            reply).getD c

inductive Action where
  | updateView (view : SessionView)
  | branchChanged
  | pi (call : PiCall)
  | fence
  | clear
  | abortCancelledTurn (pi : PiDuring)
  | synchronize (pi : PiDuring)
  | resume (index : Nat) (reply : Reply) (pi : PiDuring)

def act (c : Coordinator) : Action → Coordinator
  | .updateView view => c.updateView view
  | .branchChanged => c.branchChanged
  | .pi call => c.piCall call
  | .fence => c.fence
  | .clear => c.clear
  | .abortCancelledTurn pi => c.abortCancelledTurn pi.start.isIdle pi.onAbort
  | .synchronize pi => c.synchronize pi
  | .resume index reply pi => c.resume index reply pi

/-- A run of calls, replies and resumptions in any order. -/
def acts (actions : List Action) : Coordinator :=
  actions.foldl act initial

end Coordinator

end PiWorkflows
