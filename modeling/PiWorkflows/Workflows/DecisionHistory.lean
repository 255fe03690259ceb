import PiWorkflows.Workflows.HumanDecision

/-!
# What is recorded of human decisions (`workflows/human-decision.ts`, `workflows/queue.ts`)

The resource of a decision has a revision, and every revision an event. The store of
decisions raises the revision in the transaction that resolves a decision, and records
the event there. The queue resolves decisions too, where it cancels their run.

The effects of a resolution are those of `HumanDecision.lean`. There the revision they
are enqueued with is written out, as the second: the first is the request's.
-/

namespace PiWorkflows

open Fallible

/-- A row of `events` of the resource of a decision. -/
structure DecisionEvent where
  decisionId : String
  revision : Nat
  eventType : String
  actorType : String
  actorId : Option String
  payload : Json

/-- The decisions, the revisions of their resources and the events. -/
structure DecisionHistory where
  store : HumanDecisionStore
  revisions : Table String Nat := .empty
  events : List DecisionEvent := []

/-- The effects of a resolution, of either outcome. -/
def isDecisionEffect (effect : EffectRow) : Bool :=
  effect.effectType ∈ HumanDecisionStore.resolutionEffects "cancelled"

/-- The effects after a change that is not about decisions. -/
def keepDecisionEffects (before after : Table String EffectRow) : Table String EffectRow :=
  (before.deleteWhere fun _ effect => !isDecisionEffect effect).insertMissing
    (after.rows.filter fun e => !isDecisionEffect e.2)

namespace DecisionHistory

variable (sha256 : String → String) (dates : HostDates)
  (normalizeDecisionPresentation : Json → Except String Json) (h : DecisionHistory)

/-- `insertDecisionEvent`. -/
def insertDecisionEvent (event : DecisionEvent) : DecisionHistory :=
  { h with events := h.events ++ [event] }

/-- `createRequest`. -/
def createRequest (request : HumanDecisionRequest) : Except String DecisionHistory := do
  let store ← h.store.createRequest sha256 dates normalizeDecisionPresentation request
  match h.store.db.decisions.get? request.decisionId with
  | some _ => pure { h with store := store }
  | none => do
      let revisions ← orThrow "UNIQUE constraint failed: resources.resource_id"
        (h.revisions.insert? request.decisionId 1)
      pure ({ h with store := store, revisions := revisions }.insertDecisionEvent
        ⟨request.decisionId, 1, "decision.requested", "system", none, storedJson request.json⟩)

/-- `requireDecisionResource`, `bumpDecision` and `insertDecisionEvent`. -/
def recordResolution (decisionId eventType actorType : String) (actorId : Option String)
    (payload : Json) : Except String DecisionHistory := do
  let revision ← orThrow s!"Human decision is missing: {decisionId}"
    (h.revisions.get? decisionId)
  pure ({ h with revisions := h.revisions.update decisionId (· + 1) }.insertDecisionEvent
    ⟨decisionId, revision + 1, eventType, actorType, actorId, storedJson payload⟩)

/-- What an acceptance records. -/
def recordAcceptance (decisionId actorType : String) (actorId : Option String)
    (accepted : HumanDecisionStore × AcceptanceStatus × Json) : Except String DecisionHistory :=
  let h := { h with store := accepted.1 }
  match accepted.2.1 with
  | .accepted => h.recordResolution decisionId "decision.accepted" actorType actorId accepted.2.2
  | .adopted | .conflict => pure h

/-- `acceptSync`. -/
def accept (request : HumanDecisionRequest) (submission : HumanDecisionSubmission)
    (clock : AnswerClock) : Except String DecisionHistory := do
  let accepted ← h.store.accept sha256 dates normalizeDecisionPresentation request submission clock
  h.recordAcceptance request.decisionId "human" (some submission.source.actorId) accepted

/-- `resolveTimeoutSync`. -/
def resolveTimeout (request : HumanDecisionRequest) (authority : Option RunWriteAuthority)
    (now : Int) : Except String DecisionHistory := do
  let accepted ← h.store.resolveTimeout sha256 dates normalizeDecisionPresentation request
    authority now
  h.recordAcceptance request.decisionId "policy" (authority.map RunWriteAuthority.ownerId) accepted

/-- `HumanDecisionCancellationRecord`. -/
def cancellationRecord (request : HumanDecisionRequest) (reason : CancellationReason)
    (now : Int) : Json :=
  .obj [("schema", .str "pi-workflows.human-decision-cancellation.v1"),
    ("decisionId", .str request.decisionId), ("requestDigest", .str request.requestDigest),
    ("cancelledAt", .str (dates.text now)), ("reason", .str reason.text)]

/-- `cancel`. -/
def cancel (request : HumanDecisionRequest) (reason : CancellationReason)
    (authority : Option RunWriteAuthority) (now : Int) : Except String DecisionHistory := do
  let (store, adopted) ← h.store.cancel sha256 dates normalizeDecisionPresentation request reason
    authority now
  let h := { h with store := store }
  if adopted = true then pure h
  else
    h.recordResolution request.decisionId "decision.cancelled"
      (if reason = .expired then "policy" else "control") none
      (cancellationRecord dates request reason now)

/-- `markEffectApplied`. -/
def markEffectApplied (decisionId effectType : String) (now : Int) : DecisionHistory :=
  let effects := h.store.db.effects.updateWhere
    (fun _ effect => effect.idempotencyKey = decisionId ∧ effect.effectType = effectType ∧
      isDecisionEffect effect = true ∧ effect.status = .pending)
    fun effect => { effect with status := .applied, updatedAt := now, settledAt := some now }
  { h with store := { h.store with db := { h.store.db with effects := effects } } }

/-- A call of the queue. -/
def queue (operation : QueueOperation) : Except String DecisionHistory := do
  let (db, _) ← execute sha256 h.store.db operation
  pure { h with store := { h.store with db := db } }

/-- Whether a decision belongs to one of the runs. -/
def isDecisionOf (runIds : List String) (decisionId : String) : Bool :=
  (h.store.db.decisions.get? decisionId).any fun row => row.runId ∈ runIds

/-- `deleteRunAggregates`, of decisions. -/
def deleteRunAggregates (runIds : List String) : DecisionHistory :=
  let gone := h.isDecisionOf runIds
  let db := { h.store.db with
    decisions := h.store.db.decisions.deleteWhere fun id _ => gone id
    resolutions := h.store.db.resolutions.deleteWhere fun id _ => gone id
    effects := h.store.db.effects.deleteWhere fun _ effect =>
      isDecisionEffect effect && gone effect.idempotencyKey }
  { store :=
      { db := db
        deadlines := h.store.deadlines.deleteWhere fun id _ => gone id
        answers := h.store.answers.deleteWhere fun key _ => gone key.1 }
    revisions := h.revisions.deleteWhere fun id _ => gone id
    events := h.events.filter fun event => !gone event.decisionId }

/-- Any transaction that writes nothing of decisions. -/
def elsewhere (change : Db → Db) : DecisionHistory :=
  let changed := change h.store.db
  { h with
    store := { h.store with
      db := { changed with
        decisions := h.store.db.decisions
        resolutions := h.store.db.resolutions
        effects := keepDecisionEffects h.store.db.effects changed.effects } } }

/-- What can be done to the decisions. -/
inductive Action where
  | createRequest (request : HumanDecisionRequest)
  | accept (request : HumanDecisionRequest) (submission : HumanDecisionSubmission)
      (clock : AnswerClock)
  | resolveTimeout (request : HumanDecisionRequest) (authority : Option RunWriteAuthority)
      (now : Int)
  | cancel (request : HumanDecisionRequest) (reason : CancellationReason)
      (authority : Option RunWriteAuthority) (now : Int)
  | markEffectApplied (decisionId effectType : String) (now : Int)
  | queue (operation : QueueOperation)
  | deleteRunAggregates (runIds : List String)
  | elsewhere (change : Db → Db)

def step (h : DecisionHistory) : Action → Except String DecisionHistory
  | .createRequest request => h.createRequest sha256 dates normalizeDecisionPresentation request
  | .accept request submission clock =>
      h.accept sha256 dates normalizeDecisionPresentation request submission clock
  | .resolveTimeout request authority now =>
      h.resolveTimeout sha256 dates normalizeDecisionPresentation request authority now
  | .cancel request reason authority now =>
      h.cancel sha256 dates normalizeDecisionPresentation request reason authority now
  | .markEffectApplied decisionId effectType now => .ok (h.markEffectApplied decisionId effectType now)
  | .queue operation => h.queue sha256 operation
  | .deleteRunAggregates runIds => .ok (h.deleteRunAggregates runIds)
  | .elsewhere change => .ok (h.elsewhere change)

/-- Calls in any order, by any number of callers. -/
def run (actions : List Action) : DecisionHistory :=
  Trace.served (step sha256 dates normalizeDecisionPresentation) h actions

end DecisionHistory

end PiWorkflows
