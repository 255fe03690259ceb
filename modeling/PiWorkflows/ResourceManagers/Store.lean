import PiWorkflows.ResourceManagers.Queue
import PiWorkflows.State.Mutation

/-!
# The store of resource managers (`resource-managers/sqlite.ts`)

Around the queue of a project are the rows a managed resource shares with all
other kinds: its row of `resources`, under an id that follows from its name, and
the external effects reserved for it, under ids that follow from that one. The
finalizers of a resource hold up its deletion.

Deleting a resource deletes its own row, and with it, by the foreign keys, its
finalizers and its queue entry. Its row of `resources`, its lease and its effects
refer the other way and stay.

A finalizer list, like the resource it is of, is kept under the name of the
resource. The payload of an effect is a record instead of a blob, revisions and
leases of effects are left out, and what is drawn at random comes in from the
caller. A caller who is given a claim keeps its `resourceVersion` up to date.
-/

namespace PiWorkflows

open Fallible

/-- `EffectState`. -/
inductive EffectRecord.State where
  | pending
  | applied
  | rejected
  | indeterminate
  deriving DecidableEq, Repr

/-- The payload of a reserved effect. -/
structure EffectPayload where
  key : String
  resourceUid : String
  generation : Nat
  kind : String
  requestFingerprint : String

/-- A row of `effects`, of a managed resource. -/
structure ManagedEffectRow where
  sourceResourceId : String
  sourceRevision : Nat
  effectType : String
  idempotencyKey : String
  payload : EffectPayload
  status : EffectRecord.State
  externalRef : Option String := none
  error : Option String := none
  createdAt : Int
  settledAt : Option Int := none

/-- `EffectRecord`. -/
structure EffectRecord where
  key : String
  resourceUid : String
  generation : Nat
  kind : String
  state : EffectRecord.State
  requestFingerprint : String
  startedAt : Int
  completedAt : Option Int
  externalRef : Option String
  error : Option String

/-- What a row of `resources` is for. -/
structure AggregateRow where
  type : ResourceType
  aggregateKey : String

structure ManagedStore where
  projectId : String
  db : ResourceDb
  aggregates : Table String AggregateRow
  finalizers : Table ManagedResourceRef (List String)
  effects : Table String ManagedEffectRow

namespace ManagedStore

/-- A project without resources. -/
def empty (projectId : String) : ManagedStore :=
  ⟨projectId, .empty, .empty, .empty, .empty⟩

/-- `effectIdFor`. -/
def effectIdFor (sha256 : String → String) (sourceResourceId key : String) : String :=
  "effect-" ++ String.ofList
    ((sha256 (sourceResourceId ++ String.singleton (Char.ofNat 0) ++ key)).toList.take 40)

variable (sha256 : String → String) (s : ManagedStore)

/-- The id of the row of `resources` of a managed resource. -/
def resourceIdOf (ref : ManagedResourceRef) : String :=
  MutationStore.resourceIdFor sha256 .managed_resource
    s!"{s.projectId}:{ref.resourceManager}:{ref.key}"

/-- `INSERT INTO resources`. -/
def insertAggregate (resourceId : String) (row : AggregateRow) :
    Except String (Table String AggregateRow) := do
  let aggregates ← orThrow "UNIQUE constraint failed: resources.resource_id"
    (s.aggregates.insert? resourceId row)
  require (s.aggregates.any (fun _ other =>
      other.type = row.type ∧ other.aggregateKey = row.aggregateKey) = false)
    "UNIQUE constraint failed: resources.resource_type, resources.aggregate_key"
  pure aggregates

/-- `requireResourceManagerRowByUid`, with the name of the resource. -/
def requireResourceManagerRowByUid (uid : String) :
    Except String (ManagedResourceRef × ManagedResourceRow) :=
  orThrow s!"Managed resource not found: {uid}" (s.db.resources.find? fun _ row => row.uid = uid)

/-- `assertResourceManagerClaim`. -/
def assertResourceManagerClaim (ref : ManagedResourceRef) (claim : ResourceClaim) (now : Int) :
    Except String Unit := do
  require (ref = claim.ref) "ResourceManager claim targets another resource"
  let lease ← s.db.requireLease ref
  require (ResourceDb.isHeldBy sha256 lease claim = true ∧ lease.isLive now = true)
    "ResourceManager claim is stale"

/-- `ManagedResourceConflictError`. -/
def conflictError (ref : ManagedResourceRef) : String :=
  s!"Managed resource {ref.resourceManager}/{ref.key} changed during reconciliation"

/-! ## Resources -/

/-- `putResource`, with the id drawn for the row of a new resource. -/
def putResource (options : ResourceDb.PutOptions) (managedResourceId : String) :
    Except String ManagedStore := do
  ResourceDb.validateKey options.ref.resourceManager "resource manager"
  ResourceDb.validateKey options.ref.key "resource key"
  match s.db.resources.get? options.ref with
  | none => do
      let aggregates ← s.insertAggregate (s.resourceIdOf sha256 options.ref)
        ⟨.managed_resource, managedResourceId⟩
      require (s.db.resources.any (fun _ row => row.uid = options.uid) = false)
        "UNIQUE constraint failed: managed_resources.uid"
      let db ← s.db.createResource options
      pure { s with db, aggregates }
  | some existing =>
      if ResourceDb.changesSpec sha256 existing options.spec then
        pure { s with db := s.db.changeSpec options }
      else pure s

/-- `finalizers`. -/
def finalizersOf (ref : ManagedResourceRef) : List String :=
  (s.finalizers.get? ref).getD []

/-- `replaceFinalizers`. -/
def replaceFinalizers (ref : ManagedResourceRef) (finalizers : List String) :
    Except String (Table ManagedResourceRef (List String)) := do
  require finalizers.Nodup "ResourceManager finalizers must be unique"
  pure ((s.finalizers.insert? ref finalizers).getD (s.finalizers.update ref fun _ => finalizers))

/-- `replaceFinalizers`, if a list was given. -/
def replaceGivenFinalizers (ref : ManagedResourceRef) :
    Option (List String) → Except String (Table ManagedResourceRef (List String))
  | none => pure s.finalizers
  | some finalizers => s.replaceFinalizers ref finalizers

/-- The options of `updateStatus`. -/
structure StatusOptions where
  ref : ManagedResourceRef
  expectedResourceVersion : Nat
  claim : ResourceClaim
  status : Json
  finalizers : Option (List String) := none
  now : Int

/-- `updateStatus`. -/
def updateStatus (options : StatusOptions) : Except String ManagedStore := do
  let row ← s.db.requireResourceManagerRow options.ref
  s.assertResourceManagerClaim sha256 options.ref options.claim options.now
  require (row.resourceVersion = options.expectedResourceVersion) (conflictError options.ref)
  let resources := s.db.resources.update options.ref fun row =>
    { row with status := storedJson options.status }
  let finalizers ← s.replaceGivenFinalizers options.ref options.finalizers
  pure { s with db := ResourceDb.bumpResource { s.db with resources } options.ref, finalizers }

/-- `updateFinalizers`. -/
def updateFinalizers (ref : ManagedResourceRef) (expectedResourceVersion : Nat)
    (finalizers : List String) : Except String ManagedStore := do
  let row ← s.db.requireResourceManagerRow ref
  require (row.resourceVersion = expectedResourceVersion) (conflictError ref)
  let finalizers ← s.replaceFinalizers ref finalizers
  pure { s with db := s.db.bumpResource ref, finalizers }

/-- `DELETE FROM managed_resources`, and what its foreign keys take along. -/
def eraseResource (ref : ManagedResourceRef) : ManagedStore :=
  { s with
    db := { s.db with resources := s.db.resources.erase ref, queue := s.db.queue.erase ref }
    finalizers := s.finalizers.erase ref }

/-- `deleteResource`. -/
def deleteResource (ref : ManagedResourceRef) (expectedResourceVersion : Nat)
    (claim : ResourceClaim) (now : Int) : Except String (Bool × ManagedStore) := do
  let row ← s.db.requireResourceManagerRow ref
  s.assertResourceManagerClaim sha256 ref claim now
  require (row.resourceVersion = expectedResourceVersion) (conflictError ref)
  if row.deletionRequestedAt = none ∨ 0 < (s.finalizersOf ref).length then pure (false, s)
  else pure (true, s.eraseResource ref)

/-- `recordEvent`, of which the revision of the resource is left. -/
def recordEvent (ref : ManagedResourceRef) (claim : Option ResourceClaim) (now : Int) :
    Except String ManagedStore := do
  let _ ← s.db.requireResourceManagerRow ref
  match claim with
  | none => pure { s with db := s.db.bumpResource ref }
  | some claim => do
      s.assertResourceManagerClaim sha256 ref claim now
      pure { s with db := s.db.bumpResource ref }

/-! ## Effects -/

/-- `mapEffect`, of a row of `effectSelect`. -/
def mapEffect (resource : ManagedResourceRow) (effect : ManagedEffectRow) : EffectRecord where
  key := effect.idempotencyKey
  resourceUid := resource.uid
  generation := resource.generation
  kind := effect.effectType
  state := effect.status
  requestFingerprint := effect.payload.requestFingerprint
  startedAt := effect.createdAt
  completedAt := effect.settledAt
  externalRef := effect.externalRef
  error := effect.error

/-- `effectRow`, with the effect's id. -/
def effectRow (resourceUid key : String) : Option (String × EffectRecord) := do
  let (ref, resource) ← s.db.resources.find? fun _ row => row.uid = resourceUid
  let (effectId, effect) ← s.effects.find? fun _ effect =>
    effect.sourceResourceId = s.resourceIdOf sha256 ref ∧ effect.idempotencyKey = key
  some (effectId, mapEffect resource effect)

/-- `getEffect`. -/
def getEffect (resourceUid key : String) : Option EffectRecord :=
  (s.effectRow sha256 resourceUid key).map Prod.snd

/-- `requireEffectRow`. -/
def requireEffectRow (resourceUid key : String) : Except String (String × EffectRecord) :=
  orThrow s!"Effect record not found: {resourceUid}/{key}" (s.effectRow sha256 resourceUid key)

/-- The options of `reserveEffect`. -/
structure ReserveOptions where
  key : String
  resourceUid : String
  claim : ResourceClaim
  generation : Nat
  kind : String
  requestFingerprint : String
  now : Int

/-- `EffectRequestConflictError`. -/
def effectConflict (key : String) : String :=
  s!"Effect key {canonicalJson (.str key)} was reused with a different request"

/-- The row of a new effect. -/
def ReserveOptions.row (options : ReserveOptions) (sourceResourceId : String)
    (sourceRevision : Nat) : ManagedEffectRow where
  sourceResourceId := sourceResourceId
  sourceRevision := sourceRevision
  effectType := options.kind
  idempotencyKey := options.key
  payload := {
    key := options.key, resourceUid := options.resourceUid, generation := options.generation
    kind := options.kind, requestFingerprint := options.requestFingerprint }
  status := .pending
  createdAt := options.now

/-- `reserveEffect` of a key that is new. -/
def createEffect (options : ReserveOptions) (sourceResourceId : String) (sourceRevision : Nat) :
    Except String ManagedStore := do
  let effectId := effectIdFor sha256 sourceResourceId options.key
  let aggregates ← s.insertAggregate (MutationStore.resourceIdFor sha256 .effect effectId)
    ⟨.effect, effectId⟩
  let effects ← orThrow "UNIQUE constraint failed: effects.effect_id"
    (s.effects.insert? effectId (options.row sourceResourceId sourceRevision))
  pure { s with aggregates, effects }

/-- `reserveEffect`: the record, and whether this call has created it. -/
def reserveEffect (options : ReserveOptions) :
    Except String ((EffectRecord × Bool) × ManagedStore) := do
  let (ref, source) ← s.requireResourceManagerRowByUid options.resourceUid
  s.assertResourceManagerClaim sha256 ref options.claim options.now
  match s.effectRow sha256 options.resourceUid options.key with
  | some (_, existing) => do
      require (existing.generation = options.generation ∧ existing.kind = options.kind ∧
        existing.requestFingerprint = options.requestFingerprint) (effectConflict options.key)
      pure ((existing, false), s)
  | none => do
      let s ← s.createEffect sha256 options (s.resourceIdOf sha256 ref) source.resourceVersion
      let (_, record) ← s.requireEffectRow sha256 options.resourceUid options.key
      pure ((record, true), s)

/-- The options of `updateEffect`. -/
structure UpdateOptions where
  resourceUid : String
  key : String
  claim : ResourceClaim
  state : EffectRecord.State
  externalRef : Option String := none
  error : Option String := none
  now : Int

/-- The row of an effect after its update. -/
def UpdateOptions.row (options : UpdateOptions) (effect : ManagedEffectRow) : ManagedEffectRow :=
  { effect with
    status := options.state
    externalRef := options.externalRef
    error := options.error
    settledAt := if options.state = .pending then none else some options.now }

/-- `updateEffect`. -/
def updateEffect (options : UpdateOptions) : Except String (EffectRecord × ManagedStore) := do
  let (ref, _) ← s.requireResourceManagerRowByUid options.resourceUid
  s.assertResourceManagerClaim sha256 ref options.claim options.now
  let (effectId, _) ← s.requireEffectRow sha256 options.resourceUid options.key
  let s := { s with effects := s.effects.update effectId options.row }
  let (_, record) ← s.requireEffectRow sha256 options.resourceUid options.key
  pure (record, s)

/-! ## Calls -/

inductive Action where
  | putResource (options : ResourceDb.PutOptions) (managedResourceId : String)
  | updateStatus (options : StatusOptions)
  | requestDeletion (ref : ManagedResourceRef) (now : Int)
  | updateFinalizers (ref : ManagedResourceRef) (expectedResourceVersion : Nat)
      (finalizers : List String)
  | deleteResource (ref : ManagedResourceRef) (expectedResourceVersion : Nat)
      (claim : ResourceClaim) (now : Int)
  | enqueue (ref : ManagedResourceRef) (availableAt : Option Int) (now : Int)
  | claimNext (options : ResourceDb.ClaimOptions)
  | renewClaim (claim : ResourceClaim) (leaseMs now : Int)
  | settleClaim (claim : ResourceClaim) (now : Int)
  | requeueClaim (claim : ResourceClaim) (options : RequeueOptions) (now : Int)
  | recordEvent (ref : ManagedResourceRef) (claim : Option ResourceClaim) (now : Int)
  | reserveEffect (options : ReserveOptions)
  | updateEffect (options : UpdateOptions)

/-- A call that is about the queue only. -/
def queueCall (action : ResourceDb.Action) : Except String ManagedStore :=
  (s.db.step sha256 action).map fun db => { s with db }

def step (s : ManagedStore) : Action → Except String ManagedStore
  | .putResource options managedResourceId => s.putResource sha256 options managedResourceId
  | .updateStatus options => s.updateStatus sha256 options
  | .requestDeletion ref now => s.queueCall sha256 (.requestDeletion ref now)
  | .updateFinalizers ref expectedResourceVersion finalizers =>
      s.updateFinalizers ref expectedResourceVersion finalizers
  | .deleteResource ref expectedResourceVersion claim now =>
      (s.deleteResource sha256 ref expectedResourceVersion claim now).map Prod.snd
  | .enqueue ref availableAt now => s.queueCall sha256 (.enqueue ref availableAt now)
  | .claimNext options => s.queueCall sha256 (.claimNext options)
  | .renewClaim claim leaseMs now => s.queueCall sha256 (.renewClaim claim leaseMs now)
  | .settleClaim claim now => s.queueCall sha256 (.settleClaim claim now)
  | .requeueClaim claim options now => s.queueCall sha256 (.requeueClaim claim options now)
  | .recordEvent ref claim now => s.recordEvent sha256 ref claim now
  | .reserveEffect options => (s.reserveEffect sha256 options).map Prod.snd
  | .updateEffect options => (s.updateEffect sha256 options).map Prod.snd

/-- Calls in any order. -/
def run (projectId : String) (actions : List Action) : ManagedStore :=
  Trace.served (step sha256) (empty projectId) actions

end ManagedStore

end PiWorkflows
