import PiWorkflows.State.Mutation

/-!
# Effects of decision channels (`server/channel-effects.ts`)

What is sent to a human through a channel is an effect with numbered attempts. The
adapter that sends may be gone before it says how an attempt ended, and such an
attempt is ambiguous until a human settles it or asks for another one.

A call reads the effect first and works in a transaction of its own afterwards,
so calls of other processes may come in between (`PreparedCall`), and a crash leaves
only what was committed. A column that holds a blob's hash holds its content. The
log of started attempts is kept for the statements about it, with the call that
each attempt comes from.
-/

namespace PiWorkflows

open Fallible

/-- `ChannelEffectPurpose`. -/
inductive ChannelEffectPurpose where
  | delivery
  | settlement
  deriving DecidableEq, Repr

def ChannelEffectPurpose.text : ChannelEffectPurpose → String
  | .delivery => "delivery"
  | .settlement => "settlement"

/-- `ChannelEffectPayload`. -/
structure ChannelEffectPayload where
  channelId : String
  profile : String
  decisionId : String
  purpose : ChannelEffectPurpose
  request : Json

/-- A row of `effects`, of the channel scope. -/
structure ChannelEffectRow where
  resourceId : String
  sourceResourceId : String
  sourceRevision : Nat
  effectType : String
  idempotencyKey : String
  payload : ChannelEffectPayload
  status : EffectStatus
  attemptCount : Nat
  result : Option Json := none
  error : Option String := none
  createdAt : Int
  updatedAt : Int
  settledAt : Option Int := none

/-- The tables of channel effects. -/
structure ChannelTables where
  effects : Table String ChannelEffectRow
  attempts : Table (String × Nat) EffectAttemptRow

/-- `ChannelEffectRecord`. -/
structure ChannelEffectRecord where
  effectId : String
  resourceId : String
  sourceResourceId : String
  status : EffectStatus
  attemptNumber : Nat
  attemptStartedAt : Int
  settledAt : Option Int
  payload : ChannelEffectPayload
  result : Option Json

abbrev ChannelEffectStore := MutationStore ChannelTables

/-! ## Calls -/

/-- The options of `ensureApplying`, with the digest of its request. -/
structure EnsureOptions where
  channelResourceId : String
  channelId : String
  profile : String
  decisionId : String
  purpose : ChannelEffectPurpose
  request : Json
  requestDigest : String
  ownerId : String
  leaseGeneration : Nat
  maxAutomaticAttempts : Nat

/-- The outcomes of `settle`. -/
inductive ChannelOutcome where
  | applied
  | rejected
  | ambiguous
  deriving DecidableEq, Repr

def ChannelOutcome.status : ChannelOutcome → EffectStatus
  | .applied => .applied
  | .rejected => .rejected
  | .ambiguous => .ambiguous

def ChannelOutcome.attempt : ChannelOutcome → EffectAttemptOutcome
  | .applied => .applied
  | .rejected => .rejected
  | .ambiguous => .ambiguous

def ChannelOutcome.text : ChannelOutcome → String
  | .applied => "applied"
  | .rejected => "rejected"
  | .ambiguous => "ambiguous"

/-- The options of `settle`. -/
structure ChannelSettleOptions where
  effectId : String
  attemptNumber : Nat
  outcome : ChannelOutcome
  result : Option Json := none
  error : Option String := none
  actor : MutationActor

/-- The options of `markApplyingAmbiguous`. -/
structure MarkOptions where
  sourceResourceId : Option String := none
  stableMessageIds : Option (List String) := none
  error : String
  actorId : String

inductive RecoverAction where
  | confirm
  | retry
  deriving DecidableEq, Repr

/-- The options of `recover`. -/
structure RecoverOptions where
  stableMessageId : String
  action : RecoverAction
  actorId : String
  ownerId : String
  leaseGeneration : Nat

inductive ChannelCall where
  | ensureApplying (options : EnsureOptions)
  | settle (options : ChannelSettleOptions)
  | markApplyingAmbiguous (options : MarkOptions)
  | recover (options : RecoverOptions)

/-- What is left of a call once it has read. -/
inductive PreparedCall where
  | create (options : EnsureOptions)
  | insert (options : EnsureOptions) (resourceId : String) (sourceRevision : Nat)
  | settle (current : ChannelEffectRecord) (options : ChannelSettleOptions)
  | mark (options : MarkOptions) (effectIds : List String)
  | confirm (current : ChannelEffectRecord) (actorId : String)
  | retry (current : ChannelEffectRecord) (explicit : Bool) (ownerId : String)
      (leaseGeneration : Nat) (actorId : String)

/-- An attempt that was started: of which effect, its number, the status it was
started from and the call that started it. -/
structure AttemptStart where
  effectId : String
  attemptNumber : Nat
  status : Option EffectStatus
  call : ChannelCall

section

variable (sha256 : String → String)

/-- `channelEffectId`. -/
def channelEffectId (channelId decisionId requestDigest : String) (purpose : ChannelEffectPurpose) :
    String :=
  "effect-" ++ String.ofList ((sha256 (canonicalJson (.obj
    [("channelId", .str channelId), ("decisionId", .str decisionId),
      ("requestDigest", .str requestDigest), ("purpose", .str purpose.text)]))).toList.take 40)

/-- `channelEffectAttemptId`. -/
def channelEffectAttemptId (effectId : String) (attemptNumber : Nat) : String :=
  "channel-" ++ sha256 (effectId ++ String.singleton (Char.ofNat 0) ++ attemptNumber.repr)

def EnsureOptions.effectId (options : EnsureOptions) : String :=
  channelEffectId sha256 options.channelId options.decisionId options.requestDigest
    options.purpose

end

/-- The effect and the number of the attempt that a transaction starts. -/
def PreparedCall.starts (sha256 : String → String) : PreparedCall → Option (String × Nat)
  | .insert options _ _ => some (options.effectId sha256, 1)
  | .retry current _ _ _ _ => some (current.effectId, current.attemptNumber + 1)
  | _ => none

namespace ChannelTables

def empty : ChannelTables := ⟨.empty, .empty⟩

variable (tables : ChannelTables)

/-- The record of a row, which its latest attempt has to be there for. -/
def recordOf (effectId : String) (row : ChannelEffectRow) : Option ChannelEffectRecord :=
  (tables.attempts.get? (effectId, row.attemptCount)).map fun attempt =>
    { effectId
      resourceId := row.resourceId
      sourceResourceId := row.sourceResourceId
      status := row.status
      attemptNumber := row.attemptCount
      attemptStartedAt := attempt.startedAt
      settledAt := row.settledAt
      payload := row.payload
      result := row.result }

/-- `read`. -/
def read (effectId : String) : Option ChannelEffectRecord :=
  (tables.effects.get? effectId).bind (tables.recordOf effectId)

/-- `require`. -/
def requireEffect (effectId : String) : Except String ChannelEffectRecord :=
  orThrow s!"Channel effect is missing: {effectId}" (tables.read effectId)

/-- The rows that satisfy a condition, `ORDER BY created_at`. -/
def selectEffects (p : ChannelEffectRow → Bool) : List (String × ChannelEffectRow) :=
  (tables.effects.rows.filter fun e => p e.2).mergeSort fun e e' => e.2.createdAt ≤ e'.2.createdAt

/-- `listAmbiguous`. -/
def listAmbiguous : List ChannelEffectRecord :=
  (tables.selectEffects fun row => decide (row.status = .ambiguous)).filterMap fun e =>
    tables.recordOf e.1 e.2

/-- `insertAttempt`. -/
def insertAttempt (effectId : String) (attemptNumber : Nat) (ownerId : String)
    (leaseGeneration : Nat) (now : Int) : Except String ChannelTables := do
  require (0 < leaseGeneration) "CHECK constraint failed: lease_generation"
  let attempts ← orThrow "UNIQUE constraint failed: effect_attempts"
    (tables.attempts.insert? (effectId, attemptNumber)
      { ownerId, leaseGeneration, startedAt := now })
  pure { tables with attempts }

/-- The row of a new effect. -/
def newEffect (sha256 : String → String) (options : EnsureOptions) (resourceId : String)
    (sourceRevision : Nat) (now : Int) : ChannelEffectRow where
  resourceId := resourceId
  sourceResourceId := options.channelResourceId
  sourceRevision := sourceRevision
  effectType := "channel." ++ options.purpose.text
  idempotencyKey := options.effectId sha256
  payload := ⟨options.channelId, options.profile, options.decisionId, options.purpose,
    options.request⟩
  status := .applying
  attemptCount := 1
  createdAt := now
  updatedAt := now

/-- The transaction of `ensureApplying` for a new effect. -/
def createEffect (sha256 : String → String) (options : EnsureOptions) (resourceId : String)
    (sourceRevision : Nat) (now : Int) : Except String ChannelTables := do
  require (0 < sourceRevision) "CHECK constraint failed: source_revision"
  let effects ← orThrow "UNIQUE constraint failed: effects.effect_id"
    (tables.effects.insert? (options.effectId sha256)
      (newEffect sha256 options resourceId sourceRevision now))
  { tables with effects }.insertAttempt (options.effectId sha256) 1 options.ownerId
    options.leaseGeneration now

/-- An effect has a status and an attempt count. -/
def matchesEffect (effectId : String) (status : EffectStatus) (attemptCount : Nat) : Bool :=
  (tables.effects.get? effectId).any fun row =>
    decide (row.status = status) && decide (row.attemptCount = attemptCount)

/-- The row of an effect after `settle`. -/
def settledRow (options : ChannelSettleOptions) (now : Int) (row : ChannelEffectRow) :
    ChannelEffectRow :=
  { row with
    status := options.outcome.status, result := options.result, error := options.error
    updatedAt := now, settledAt := some now }

/-- The row of an attempt after `settle`. -/
def finishedAttempt (options : ChannelSettleOptions) (now : Int) (row : EffectAttemptRow) :
    EffectAttemptRow :=
  if row.finishedAt = none then
    { row with
      finishedAt := some now, outcome := some options.outcome.attempt
      result := options.result, error := options.error }
  else row

/-- The transaction of `settle`. -/
def settleEffect (options : ChannelSettleOptions) (now : Int) : Except String ChannelTables := do
  require (tables.matchesEffect options.effectId .applying options.attemptNumber = true)
    "Channel effect attempt changed"
  pure
    { effects := tables.effects.update options.effectId (settledRow options now)
      attempts := tables.attempts.update (options.effectId, options.attemptNumber)
        (finishedAttempt options now) }

/-- The row of an effect after `confirmAmbiguous`. -/
def confirmedRow (now : Int) (row : ChannelEffectRow) : ChannelEffectRow :=
  { row with status := .applied, updatedAt := now, settledAt := some now }

/-- The transaction of `confirmAmbiguous`. -/
def confirmEffect (current : ChannelEffectRecord) (now : Int) : Except String ChannelTables := do
  require (tables.matchesEffect current.effectId .ambiguous current.attemptNumber = true)
    "Channel effect recovery is stale"
  pure { tables with effects := tables.effects.update current.effectId (confirmedRow now) }

/-- The row of an effect after `beginAttempt`. -/
def retriedRow (attemptNumber : Nat) (now : Int) (row : ChannelEffectRow) : ChannelEffectRow :=
  { row with
    status := .applying, attemptCount := attemptNumber, result := none, error := none
    updatedAt := now, settledAt := none }

/-- The transaction of `beginAttempt`. -/
def retryEffect (current : ChannelEffectRecord) (ownerId : String) (leaseGeneration : Nat)
    (now : Int) : Except String ChannelTables := do
  require (tables.matchesEffect current.effectId current.status current.attemptNumber = true)
    "Channel effect retry is stale"
  let effects := tables.effects.update current.effectId
    (retriedRow (current.attemptNumber + 1) now)
  { tables with effects }.insertAttempt current.effectId (current.attemptNumber + 1) ownerId
    leaseGeneration now

end ChannelTables

namespace ChannelEffectStore

variable (sha256 : String → String) (s : ChannelEffectStore)

/-- `resourceRevision`. -/
def resourceRevision (resourceId : String) : Except String Nat := do
  let row ← orThrow s!"Resource is missing: {resourceId}" (s.resources.get? resourceId)
  pure row.revision

/-! ## The reads of a call -/

/-- The first part of `beginAttempt`. -/
def beginAttempt (current : ChannelEffectRecord) (explicit : Bool) (ownerId : String)
    (leaseGeneration : Nat) (actorId : String) : Except String PreparedCall := do
  require (current.status = .rejected ∨ current.status = .ambiguous)
    "Channel effect is not retryable"
  pure (.retry current explicit ownerId leaseGeneration actorId)

/-- The first part of `ensureApplying`. An effect that is left as it is is returned. -/
def ensureApplying (options : EnsureOptions) : Except String (Option PreparedCall) :=
  match s.tables.read (options.effectId sha256) with
  | some existing =>
      if existing.status = .rejected ∧ existing.attemptNumber < options.maxAutomaticAttempts then
        (beginAttempt existing false options.ownerId options.leaseGeneration
          options.ownerId).map some
      else pure none
  | none => pure (some (.create options))

/-- The first part of `settle`. -/
def settle (options : ChannelSettleOptions) : Except String PreparedCall := do
  let current ← s.tables.requireEffect options.effectId
  require (current.status = .applying ∧ current.attemptNumber = options.attemptNumber)
    "Channel effect attempt is stale"
  pure (.settle current options)

/-- The first part of `markApplyingAmbiguous`. -/
def markApplyingAmbiguous (options : MarkOptions) : PreparedCall :=
  .mark options ((s.tables.selectEffects fun row =>
    decide (row.status = .applying) &&
      options.sourceResourceId.all fun id => decide (row.sourceResourceId = id)).map Prod.fst)

/-- The first part of `recover`. -/
def recover (options : RecoverOptions) : Except String PreparedCall := do
  let current ← orThrow "Ambiguous channel operation was not found"
    (s.tables.listAmbiguous.find? fun effect =>
      decide (channelEffectAttemptId sha256 effect.effectId effect.attemptNumber =
        options.stableMessageId))
  match options.action with
  | .confirm => pure (.confirm current options.actorId)
  | .retry => beginAttempt current true options.ownerId options.leaseGeneration options.actorId

/-- A call up to its transaction, if it has one. -/
def prepare : ChannelCall → Except String (Option PreparedCall)
  | .ensureApplying options => ensureApplying sha256 s options
  | .settle options => (settle s options).map some
  | .markApplyingAmbiguous options => pure (some (markApplyingAmbiguous s options))
  | .recover options => (recover sha256 s options).map some

/-! ## The transactions of a call -/

/-- `mutate`, for a change of the tables. -/
def mutateTables (resourceId operation : String) (actor : MutationActor) (eventType : String)
    (change : ChannelTables → Except String ChannelTables) (payload : Json) (now : Int)
    (eventId : String) : Except String ChannelEffectStore := do
  let expectedRevision ← resourceRevision s resourceId
  let (_, t) ← s.mutate sha256 { resourceId, operation, actor, expectedRevision } eventType
    (fun tables blobs _ _ => (change tables).map fun tables => (.null, tables, blobs))
    (some payload) now eventId
  pure t

/-- The transaction of `settle`. -/
def commitSettle (current : ChannelEffectRecord) (options : ChannelSettleOptions) (now : Int)
    (eventId : String) : Except String ChannelEffectStore :=
  mutateTables sha256 s current.resourceId "channel.effect.settle" options.actor
    s!"effect.{options.outcome.text}" (fun tables => tables.settleEffect options now)
    (.obj [("attemptNumber", .num (.ofNat options.attemptNumber))]) now eventId

/-- One round of `markApplyingAmbiguous`. -/
def markOne (options : MarkOptions) (effectId : String) (now : Int) (eventId : String) :
    Except String ChannelEffectStore := do
  let current ← s.tables.requireEffect effectId
  if options.stableMessageIds.any (fun ids =>
      decide (channelEffectAttemptId sha256 current.effectId current.attemptNumber ∉ ids)) then
    pure s
  else
    let settleOptions : ChannelSettleOptions :=
      { effectId := current.effectId, attemptNumber := current.attemptNumber
        outcome := .ambiguous, error := some options.error
        actor := ⟨.channel, some options.actorId⟩ }
    match ← settle s settleOptions with
    | .settle current settleOptions => commitSettle sha256 s current settleOptions now eventId
    | _ => pure s

/-- The next transaction of a call, and what is left of the call then. -/
def commit (now : Int) (eventId : String) :
    PreparedCall → Except String (ChannelEffectStore × Option PreparedCall)
  | .create options => do
      let sourceRevision ← resourceRevision s options.channelResourceId
      let (resourceId, t) ← s.ensureResource sha256 .effect (options.effectId sha256) now
      pure (t, some (.insert options resourceId sourceRevision))
  | .insert options resourceId sourceRevision => do
      let t ← mutateTables sha256 s resourceId "channel.effect.create"
        ⟨.server, some options.ownerId⟩ "effect.applying"
        (fun tables => tables.createEffect sha256 options resourceId sourceRevision now)
        (.obj [("channelId", .str options.channelId), ("decisionId", .str options.decisionId)])
        now eventId
      pure (t, none)
  | .settle current options => do
      let t ← commitSettle sha256 s current options now eventId
      pure (t, none)
  | .mark _ [] => pure (s, none)
  | .mark options (effectId :: effectIds) => do
      let t ← markOne sha256 s options effectId now eventId
      pure (t, some (.mark options effectIds))
  | .confirm current actorId => do
      let t ← mutateTables sha256 s current.resourceId "channel.effect.confirm"
        ⟨.human, some actorId⟩ "effect.recovered_confirmed"
        (fun tables => tables.confirmEffect current now)
        (.obj [("attemptNumber", .num (.ofNat current.attemptNumber))]) now eventId
      pure (t, none)
  | .retry current explicit ownerId leaseGeneration actorId => do
      let t ← mutateTables sha256 s current.resourceId "channel.effect.retry"
        ⟨if explicit then .human else .server, some actorId⟩ "effect.applying"
        (fun tables => tables.retryEffect current ownerId leaseGeneration now)
        (.obj [("attemptNumber", .num (.ofNat (current.attemptNumber + 1))),
          ("reason", .str (if explicit then "explicit" else "automatic"))]) now eventId
      pure (t, none)

end ChannelEffectStore

/-! ## Calls of several processes -/

/-- The store beside other tables. -/
def MutationStore.withTables {σ τ : Type} (s : MutationStore σ) (tables : τ) : MutationStore τ :=
  ⟨s.resources, s.leases, s.events, s.blobs, tables⟩

/-- The store, the calls that have read but not finished, and the log of attempts. -/
structure ChannelServer where
  store : ChannelEffectStore
  pending : List (ChannelCall × PreparedCall) := []
  starts : List AttemptStart := []

inductive ChannelAction where
  | call (call : ChannelCall)
  | commit (index : Nat) (now : Int) (eventId : String)
  | crash
  /-- A transaction that leaves these tables alone. -/
  | write (action : MutationStore.Action Unit)

namespace ChannelServer

variable (sha256 : String → String) (s : ChannelServer)

/-- The log entry of a transaction that starts an attempt. -/
def startOf (call : ChannelCall) (prepared : PreparedCall) : List AttemptStart :=
  ((prepared.starts sha256).map fun (effectId, attemptNumber) =>
    { effectId, attemptNumber
      status := (s.store.tables.effects.get? effectId).map ChannelEffectRow.status
      call }).toList

/-- One step. What throws is rolled back and ends its call. -/
def act : ChannelAction → ChannelServer
  | .call call =>
      match ChannelEffectStore.prepare sha256 s.store call with
      | .ok (some prepared) => { s with pending := s.pending ++ [(call, prepared)] }
      | _ => s
  | .commit index now eventId =>
      match s.pending[index]? with
      | some (call, prepared) =>
          let pending := s.pending.eraseIdx index
          match ChannelEffectStore.commit sha256 s.store now eventId prepared with
          | .ok (store, rest) =>
              { store
                pending := pending ++ (rest.map fun rest => (call, rest)).toList
                starts := s.starts ++ startOf sha256 s call prepared }
          | .error _ => { s with pending }
      | none => s
  | .crash => { s with pending := [] }
  | .write action =>
      match (s.store.withTables ()).step sha256 action with
      | .ok store => { s with store := store.withTables s.store.tables }
      | .error _ => s

end ChannelServer

/-- Any interleaving of calls and crashes. -/
def channelRun (sha256 : String → String) (s : ChannelServer) (actions : List ChannelAction) :
    ChannelServer :=
  actions.foldl (ChannelServer.act sha256) s

end PiWorkflows
