import PiWorkflows.Js.Text
import PiWorkflows.Lib.Trace
import PiWorkflows.State.Schema

/-!
# The queue of managed resources (`resource-managers/sqlite.ts`)

Producers enqueue a resource for a time: a new or changed spec, a request to
delete it, or an event. Workers claim the resource that has been available for
longest, and settle the claim or put the resource back for a later time.

A managed resource, its lease and its queue entry are kept under its name within
the project, since each has one of the others; the revision of the resource is
its `resourceVersion`. Times are numbers, and what is drawn at random comes in
from the caller. Events, finalizers, effects and child workflows are left out.
-/

namespace PiWorkflows

open Fallible

/-- `ManagedResourceRef`. -/
structure ManagedResourceRef where
  resourceManager : String
  key : String
  deriving DecidableEq

/-- A row of `managed_resources`, with its resource's revision. -/
structure ManagedResourceRow where
  uid : String
  generation : Nat
  spec : Json
  status : Json
  deletionRequestedAt : Option Int := none
  resourceVersion : Nat

/-- A row of `managed_resource_queue`. -/
structure ResourceQueueRow where
  availableAt : Int
  queueVersion : Nat := 1
  consecutiveErrors : Nat := 0
  lastError : Option String := none
  createdAt : Int
  updatedAt : Int

/-- `ResourceManagerQueueClaim`. -/
structure ResourceClaim where
  ref : ManagedResourceRef
  ownerId : String
  token : String
  generation : Nat
  queueVersion : Nat
  resourceVersion : Nat
  consecutiveErrors : Nat
  expiresAt : Int

/-- `QueueRequeueOptions`. -/
structure RequeueOptions where
  availableAt : Int
  error : Option String := none

/-- The tables of one project. -/
structure ResourceDb where
  resources : Table ManagedResourceRef ManagedResourceRow
  leases : Table ManagedResourceRef Lease
  queue : Table ManagedResourceRef ResourceQueueRow

namespace ResourceDb

/-- A project without resources. -/
def empty : ResourceDb := ⟨.empty, .empty, .empty⟩

variable (sha256 : String → String) (db : ResourceDb)

/-- `bumpResource`. -/
def bumpResource (ref : ManagedResourceRef) : ResourceDb :=
  { db with resources := db.resources.update ref fun row =>
      { row with resourceVersion := row.resourceVersion + 1 } }

/-- `enqueueResourceManagerRow`. -/
def enqueueResourceManagerRow (ref : ManagedResourceRef) (availableAt now : Int) : ResourceDb :=
  let updated := db.queue.update ref fun item =>
    { item with
      availableAt := min item.availableAt availableAt
      queueVersion := item.queueVersion + 1
      updatedAt := now }
  { db with
    queue := (db.queue.insert? ref { availableAt, createdAt := now, updatedAt := now }).getD updated }

/-- `requireResourceManagerRow`. -/
def requireResourceManagerRow (ref : ManagedResourceRef) : Except String ManagedResourceRow :=
  orThrow s!"Managed resource not found: {ref.resourceManager}/{ref.key}" (db.resources.get? ref)

/-- `requireLease`. -/
def requireLease (ref : ManagedResourceRef) : Except String Lease :=
  orThrow s!"Lease is missing: {ref.resourceManager}/{ref.key}" (db.leases.get? ref)

/-! ## Producers -/

structure PutOptions where
  ref : ManagedResourceRef
  spec : Json
  initialStatus : Json
  now : Int
  uid : String

/-- `validateName` and `validateKey`. -/
def validateKey (value label : String) : Except String Unit :=
  require (0 < utf16Length value ∧ utf16Length value ≤ 512) s!"{label} is invalid"

/-- `putResource` of a resource that is new. -/
def createResource (options : PutOptions) : Except String ResourceDb := do
  let row : ManagedResourceRow := {
    uid := options.uid, generation := 1, spec := storedJson options.spec
    status := storedJson (.obj [("observedGeneration", .num (.ofNat 0)), ("conditions", .arr []),
      ("resourceManagerStatus", options.initialStatus)])
    resourceVersion := 1 }
  let resources ← orThrow "UNIQUE constraint failed: resources" (db.resources.insert? options.ref row)
  let leases ← orThrow "UNIQUE constraint failed: leases" (db.leases.insert? options.ref ⟨0, none⟩)
  .ok (enqueueResourceManagerRow { db with resources, leases } options.ref options.now options.now)

/-- The spec of a resource differs from the one that is put. -/
def changesSpec (existing : ManagedResourceRow) (spec : Json) : Bool :=
  jsonHash sha256 existing.spec ≠ jsonHash sha256 spec

/-- `putResource` of a resource whose spec has changed. -/
def changeSpec (options : PutOptions) : ResourceDb :=
  let resources := db.resources.update options.ref fun row =>
    { row with spec := storedJson options.spec, generation := row.generation + 1 }
  (bumpResource { db with resources } options.ref).enqueueResourceManagerRow options.ref options.now
    options.now

/-- `putResource`. -/
def putResource (options : PutOptions) : Except String ResourceDb := do
  validateKey options.ref.resourceManager "resource manager"
  validateKey options.ref.key "resource key"
  match db.resources.get? options.ref with
  | none => db.createResource options
  | some existing =>
      if changesSpec sha256 existing options.spec then .ok (db.changeSpec options) else .ok db

/-- `requestDeletion`. -/
def requestDeletion (ref : ManagedResourceRef) (now : Int) : Except String ResourceDb := do
  let row ← db.requireResourceManagerRow ref
  if row.deletionRequestedAt = none then
    let resources := db.resources.update ref fun row => { row with deletionRequestedAt := some now }
    .ok ((bumpResource { db with resources } ref).enqueueResourceManagerRow ref now now)
  else .ok db

/-- `enqueue`, where the time that was not given is the time of the call. -/
def enqueue (ref : ManagedResourceRef) (availableAt : Option Int) (now : Int) :
    Except String ResourceDb := do
  let _ ← db.requireResourceManagerRow ref
  .ok (db.enqueueResourceManagerRow ref (availableAt.getD now) now)

/-! ## Workers -/

structure ClaimOptions where
  resourceManagers : List String
  ownerId : String
  leaseMs : Int
  now : Int
  exclude : List ManagedResourceRef := []
  token : String

/-- The conditions of `claimNext` on one queue entry. -/
def isClaimable (options : ClaimOptions) (ref : ManagedResourceRef) (item : ResourceQueueRow) : Bool :=
  ref.resourceManager ∈ options.resourceManagers ∧ ref ∉ options.exclude ∧
    item.availableAt ≤ options.now ∧
    (db.resources.get? ref).isSome ∧
    (db.leases.get? ref).any (fun lease => lease.isLive options.now = false)

/-- The entry `claimNext` selects, `ORDER BY available_at, resource_manager_name, resource_key`. -/
def nextClaimable (options : ClaimOptions) : Option (ManagedResourceRef × ResourceQueueRow) :=
  let sorted := (db.queue.rows.filter fun e => db.isClaimable options e.1 e.2).mergeSort fun a b =>
    a.2.availableAt < b.2.availableAt ∨ a.2.availableAt = b.2.availableAt ∧
      (a.1.resourceManager < b.1.resourceManager ∨ a.1.resourceManager = b.1.resourceManager ∧
        a.1.key ≤ b.1.key)
  sorted.head?

/-- `claimNext`. -/
def claimNext (options : ClaimOptions) : Except String (Option ResourceClaim × ResourceDb) :=
  match db.nextClaimable options with
  | none => .ok (none, db)
  | some (ref, item) => do
      let row ← db.requireResourceManagerRow ref
      let lease ← db.requireLease ref
      let expiresAt := options.now + options.leaseMs
      let leases := db.leases.update ref fun lease => lease.claim {
        type := .resource_manager, id := options.ownerId, tokenHash := sha256 options.token
        acquiredAt := options.now, heartbeatAt := options.now, expiresAt }
      .ok (some {
          ref, ownerId := options.ownerId, token := options.token
          generation := lease.generation + 1, queueVersion := item.queueVersion
          resourceVersion := row.resourceVersion + 1, consecutiveErrors := item.consecutiveErrors
          expiresAt },
        bumpResource { db with leases } ref)

/-- The lease is the one the claim was given. -/
def isHeldBy (lease : Lease) (claim : ResourceClaim) : Bool :=
  lease.generation = claim.generation ∧ lease.owner.any fun owner =>
    owner.type = .resource_manager ∧ owner.id = claim.ownerId ∧
      owner.tokenHash = sha256 claim.token

/-- `assertResourceManagerClaim`, where the lease may have expired. -/
def isClaimCurrent (claim : ResourceClaim) : Bool :=
  (db.leases.get? claim.ref).any fun lease => isHeldBy sha256 lease claim

/-- `renewClaim`. -/
def renewClaim (claim : ResourceClaim) (leaseMs now : Int) : Bool × ResourceDb :=
  if (db.resources.get? claim.ref).isSome ∧ (db.leases.get? claim.ref).any (fun lease =>
      isHeldBy sha256 lease claim && lease.isLive now) then
    (true, { db with leases := db.leases.update claim.ref fun lease =>
      { lease with owner := lease.owner.map fun owner =>
        { owner with heartbeatAt := now, expiresAt := now + leaseMs } } })
  else (false, db)

/-- `releaseLease`, of a lease the claim still holds. -/
def releaseLease (claim : ResourceClaim) : ResourceDb :=
  bumpResource { db with leases := db.leases.update claim.ref Lease.release } claim.ref

/-- What is left of the queue entry of a claim: nothing new to do, or a retry. -/
def settleQueue (claim : ResourceClaim) (item : ResourceQueueRow) (now : Int) :
    Option RequeueOptions → ResourceDb
  | none =>
      if item.queueVersion = claim.queueVersion then { db with queue := db.queue.erase claim.ref }
      else db
  | some requeue =>
      { db with queue := db.queue.update claim.ref fun item =>
          { item with
            availableAt := requeue.availableAt
            queueVersion := item.queueVersion + 1
            consecutiveErrors := item.consecutiveErrors + 1
            lastError := requeue.error
            updatedAt := now } }

/-- `settleResourceManagerClaim`: `settleClaim` without options, `requeueClaim` with. -/
def settleResourceManagerClaim (claim : ResourceClaim) (requeue : Option RequeueOptions)
    (now : Int) : Except String (Bool × ResourceDb) :=
  match db.resources.get? claim.ref with
  | none => .ok (false, db)
  | some _ =>
      if db.isClaimCurrent sha256 claim then do
        let item ← orThrow "ResourceManager queue item is missing" (db.queue.get? claim.ref)
        .ok (true, (db.settleQueue claim item now requeue).releaseLease claim)
      else .ok (false, db)

/-! ## Calls -/

inductive Action where
  | putResource (options : PutOptions)
  | requestDeletion (ref : ManagedResourceRef) (now : Int)
  | enqueue (ref : ManagedResourceRef) (availableAt : Option Int) (now : Int)
  | claimNext (options : ClaimOptions)
  | renewClaim (claim : ResourceClaim) (leaseMs now : Int)
  | settleClaim (claim : ResourceClaim) (now : Int)
  | requeueClaim (claim : ResourceClaim) (options : RequeueOptions) (now : Int)

def step (db : ResourceDb) : Action → Except String ResourceDb
  | .putResource options => db.putResource sha256 options
  | .requestDeletion ref now => db.requestDeletion ref now
  | .enqueue ref availableAt now => db.enqueue ref availableAt now
  | .claimNext options => (db.claimNext sha256 options).map Prod.snd
  | .renewClaim claim leaseMs now => .ok (db.renewClaim sha256 claim leaseMs now).2
  | .settleClaim claim now =>
      (db.settleResourceManagerClaim sha256 claim none now).map Prod.snd
  | .requeueClaim claim options now =>
      (db.settleResourceManagerClaim sha256 claim (some options) now).map Prod.snd

/-- Calls of producers and workers in any order. -/
def run (actions : List Action) : ResourceDb :=
  Trace.served (step sha256) db actions

/-- The time for which an accepted call enqueues the resource. -/
def wakeTime (ref : ManagedResourceRef) : Action → Option Int
  | .putResource options =>
      if options.ref = ref ∧
          (db.resources.get? ref).all (fun row => changesSpec sha256 row options.spec) then
        some options.now
      else none
  | .requestDeletion target now =>
      if target = ref ∧ (db.resources.get? ref).any (fun row => row.deletionRequestedAt = none) then
        some now
      else none
  | .enqueue target availableAt now => if target = ref then some (availableAt.getD now) else none
  | .claimNext _ | .renewClaim _ _ _ | .settleClaim _ _ | .requeueClaim _ _ _ => none

end ResourceDb

end PiWorkflows
