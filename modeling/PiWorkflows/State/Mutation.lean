import PiWorkflows.Lib.Trace
import PiWorkflows.State.Blobs
import PiWorkflows.State.Schema

/-!
# Resources under leases (`state/mutation.ts`)

A resource has a revision, a lease and a log of events. Every operation names the
revision it expects, raises it by one and writes one event under the new one;
`renew`, `release` and a mutation under a lease present the claim they hold, and
`requireCurrentLease` compares it with the lease.

Each operation is one transaction, so it gives a new store or throws and leaves
the store alone. Random values (tokens and event ids), the times and the tables
outside the store come in from the caller. A mutation applies any function of
those tables, which cannot reach the resource, its lease or its events.
-/

namespace PiWorkflows

open Fallible

/-- `ResourceType`. -/
inductive ResourceType where
  | run
  | session
  | decision
  | managed_resource
  | effect
  | channel
  | notification
  | turn_intent
  | settings
  | follow_up_queue
  | follow_up
  deriving DecidableEq, Repr

def ResourceType.text : ResourceType → String
  | .run => "run"
  | .session => "session"
  | .decision => "decision"
  | .managed_resource => "managed_resource"
  | .effect => "effect"
  | .channel => "channel"
  | .notification => "notification"
  | .turn_intent => "turn_intent"
  | .settings => "settings"
  | .follow_up_queue => "follow_up_queue"
  | .follow_up => "follow_up"

/-- The types `CHECK (resource_type IN …)` admits. -/
def ResourceType.isStored : ResourceType → Bool
  | .notification | .turn_intent | .follow_up_queue => false
  | _ => true

def OwnerType.text : OwnerType → String
  | .session => "session"
  | .server => "server"
  | .resource_manager => "resource_manager"
  | .channel => "channel"
  | .system => "system"

/-- An owner as an actor. -/
def OwnerType.actor : OwnerType → ActorType
  | .session => .session
  | .server => .server
  | .resource_manager => .resource_manager
  | .channel => .channel
  | .system => .system

/-- `LeaseClaim`. -/
structure LeaseClaim where
  resourceId : String
  ownerType : OwnerType
  ownerId : String
  token : String
  generation : Nat
  expiresAt : Int
  resourceRevision : Nat
  deriving DecidableEq

/-- `WritePermit`. -/
structure WritePermit where
  resourceId : String
  operation : String
  actor : MutationActor
  expectedRevision : Nat
  lease : Option LeaseClaim := none

/-- A row of `resources`. -/
structure ResourceRow where
  type : ResourceType
  aggregateKey : String
  revision : Nat := 0
  updatedAt : Int

/-- A row of `events`. -/
structure EventRow where
  eventId : String
  resourceId : String
  resourceRevision : Nat
  eventType : String
  actor : MutationActor
  leaseGeneration : Option Nat
  payload : Option Json
  recordedAt : Int

/-- The tables of `StateMutationStore`, and all others as `tables`. -/
structure MutationStore (σ : Type) where
  resources : Table String ResourceRow
  leases : Table String Lease
  events : List EventRow
  blobs : StateDatabase String
  tables : σ

namespace MutationStore

variable {σ : Type} (sha256 : String → String) (s : MutationStore σ)

/-- A store without resources. -/
def fresh (blobs : StateDatabase String) (tables : σ) : MutationStore σ :=
  ⟨.empty, .empty, [], blobs, tables⟩

/-- `resourceIdFor`. -/
def resourceIdFor (type : ResourceType) (aggregateKey : String) : String :=
  type.text ++ "-" ++
    String.ofList ((sha256 (type.text ++ String.singleton (Char.ofNat 0) ++ aggregateKey)).toList.take 40)

/-- `INSERT INTO resources … ON CONFLICT(resource_type, aggregate_key) DO NOTHING`. -/
def insertResource (resourceId : String) (row : ResourceRow) :
    Except String (Table String ResourceRow) := do
  require (row.type.isStored = true) "CHECK constraint failed: resource_type"
  if s.resources.any (fun _ other =>
      other.type = row.type ∧ other.aggregateKey = row.aggregateKey) then .ok s.resources
  else orThrow "UNIQUE constraint failed: resources.resource_id" (s.resources.insert? resourceId row)

/-- `ensureResource`. -/
def ensureResource (type : ResourceType) (aggregateKey : String) (now : Int) :
    Except String (String × MutationStore σ) := do
  let resourceId := resourceIdFor sha256 type aggregateKey
  let resources ← s.insertResource resourceId { type, aggregateKey, updatedAt := now }
  let conflict := s!"Resource identity conflict for {type.text}:{aggregateKey}"
  let row ← orThrow conflict (resources.get? resourceId)
  require (row.type = type ∧ row.aggregateKey = aggregateKey) conflict
  .ok (resourceId, { s with
    resources, leases := (s.leases.insert? resourceId ⟨0, none⟩).getD s.leases })

/-- `requireResource`. -/
def requireResource (resourceId : String) : Except String ResourceRow :=
  orThrow s!"Unknown resource: {resourceId}" (s.resources.get? resourceId)

/-- `requireLease`. -/
def requireLease (resourceId : String) : Except String Lease :=
  orThrow s!"Resource has no lease row: {resourceId}" (s.leases.get? resourceId)

/-- The owner of the lease is the one that was given the claim. -/
def isOwnedBy (owner : LeaseOwner) (claim : LeaseClaim) : Bool :=
  owner.type = claim.ownerType ∧ owner.id = claim.ownerId ∧ owner.tokenHash = sha256 claim.token

/-- `requireCurrentLease`. -/
def requireCurrentLease (claim : LeaseClaim) (now : Int) (requireUnexpired : Bool := true) :
    Except String Unit := do
  let lease ← s.requireLease claim.resourceId
  require (lease.generation = claim.generation ∧
    lease.owner.any (fun owner => isOwnedBy sha256 owner claim &&
      (!requireUnexpired || decide (now < owner.expiresAt))) = true) "Lease is no longer current"

/-- `updateResourceRevision`, after the revision was checked. -/
def updateResourceRevision (resourceId : String) (now : Int) : MutationStore σ :=
  { s with resources := s.resources.update resourceId fun row =>
      { row with revision := row.revision + 1, updatedAt := now } }

/-- `insertEvent`. -/
def insertEvent (event : EventRow) : Except String (MutationStore σ) := do
  let blobs ← s.blobs.putOptionalJson sha256 event.payload event.recordedAt
  require (s.events.all (fun other => other.eventId ≠ event.eventId) = true)
    "UNIQUE constraint failed: events.event_id"
  require (s.events.all (fun other =>
      ¬ (other.resourceId = event.resourceId ∧ other.resourceRevision = event.resourceRevision)) = true)
    "UNIQUE constraint failed: events.resource_id, events.resource_revision"
  require (event.leaseGeneration.all (fun generation => decide (0 < generation)) = true)
    "CHECK constraint failed: lease_generation"
  .ok { s with events := s.events ++ [event], blobs }

/-- The options of `claim`, with the token and the event id that are drawn for it. -/
structure ClaimOptions where
  resourceId : String
  ownerType : OwnerType
  ownerId : String
  expectedRevision : Nat
  leaseMs : Int
  now : Int
  token : String
  eventId : String

/-- `claim` of a lease nobody holds. -/
def claimFree (options : ClaimOptions) (revision : Nat) (lease : Lease) :
    Except String (Option LeaseClaim × MutationStore σ) := do
  let generation := lease.generation + 1
  let expiresAt := options.now + options.leaseMs
  let leases := s.leases.update options.resourceId fun _ => lease.claim {
    type := options.ownerType, id := options.ownerId, tokenHash := sha256 options.token
    acquiredAt := options.now, heartbeatAt := options.now, expiresAt }
  let s := updateResourceRevision { s with leases } options.resourceId options.now
  let s ← s.insertEvent sha256 {
    eventId := options.eventId, resourceId := options.resourceId, resourceRevision := revision + 1
    eventType := "lease.claimed", actor := ⟨options.ownerType.actor, some options.ownerId⟩
    leaseGeneration := some generation
    payload := some (.obj [("expiresAt", .num (.ofInt expiresAt)),
      ("ownerType", .str options.ownerType.text)])
    recordedAt := options.now }
  .ok (some { resourceId := options.resourceId, ownerType := options.ownerType
              ownerId := options.ownerId, token := options.token, generation, expiresAt
              resourceRevision := revision + 1 }, s)

/-- `claim`. -/
def claim (options : ClaimOptions) : Except String (Option LeaseClaim × MutationStore σ) := do
  require (0 < options.leaseMs) "Lease duration must be a positive integer"
  let resource ← s.requireResource options.resourceId
  require (resource.revision = options.expectedRevision)
    "Resource revision changed before ownership claim"
  let lease ← s.requireLease options.resourceId
  if lease.isLive options.now = true then .ok (none, s)
  else s.claimFree sha256 options resource.revision lease

/-- `renew`. -/
def renew (claim : LeaseClaim) (expectedRevision : Nat) (leaseMs now : Int) (eventId : String) :
    Except String (LeaseClaim × MutationStore σ) := do
  let resource ← s.requireResource claim.resourceId
  require (resource.revision = expectedRevision) "Resource revision changed before lease renewal"
  s.requireCurrentLease sha256 claim now
  let expiresAt := now + leaseMs
  let leases := s.leases.update claim.resourceId fun lease =>
    { lease with owner := lease.owner.map fun owner => { owner with heartbeatAt := now, expiresAt } }
  let s := updateResourceRevision { s with leases } claim.resourceId now
  let s ← s.insertEvent sha256 {
    eventId, resourceId := claim.resourceId, resourceRevision := resource.revision + 1
    eventType := "lease.renewed", actor := ⟨claim.ownerType.actor, some claim.ownerId⟩
    leaseGeneration := some claim.generation
    payload := some (.obj [("expiresAt", .num (.ofInt expiresAt))])
    recordedAt := now }
  .ok ({ claim with expiresAt, resourceRevision := resource.revision + 1 }, s)

/-- `release`. The claim may have expired, as long as nobody else made one. -/
def release (claim : LeaseClaim) (expectedRevision : Nat) (now : Int) (eventId : String) :
    Except String (Nat × MutationStore σ) := do
  let resource ← s.requireResource claim.resourceId
  require (resource.revision = expectedRevision) "Resource revision changed before lease release"
  s.requireCurrentLease sha256 claim now false
  let leases := s.leases.update claim.resourceId Lease.release
  let s := updateResourceRevision { s with leases } claim.resourceId now
  let s ← s.insertEvent sha256 {
    eventId, resourceId := claim.resourceId, resourceRevision := resource.revision + 1
    eventType := "lease.released", actor := ⟨claim.ownerType.actor, some claim.ownerId⟩
    leaseGeneration := some claim.generation, payload := none, recordedAt := now }
  .ok (resource.revision + 1, s)

/-- What a mutation applies to the other tables. -/
abbrev Apply (σ : Type) := σ → StateDatabase String → Nat → Int →
  Except String (Json × σ × StateDatabase String)

/-- `MutationResult`. -/
structure MutationResult where
  value : Json
  revision : Nat
  eventId : String

/-- The checks a mutation makes of the claim in its permit. -/
def checkPermit (permit : WritePermit) (now : Int) : Except String Unit :=
  match permit.lease with
  | none => .ok ()
  | some lease => do
      require (lease.resourceId = permit.resourceId)
        "Lease does not belong to the mutation resource"
      s.requireCurrentLease sha256 lease now

/-- `mutate`. -/
def mutate (permit : WritePermit) (eventType : String) (apply : Apply σ) (payload : Option Json)
    (now : Int) (eventId : String) : Except String (MutationResult × MutationStore σ) := do
  let resource ← s.requireResource permit.resourceId
  require (resource.revision = permit.expectedRevision) "Resource revision changed before mutation"
  s.checkPermit sha256 permit now
  let revision := resource.revision + 1
  let (value, tables, blobs) ← apply s.tables s.blobs revision now
  let s := updateResourceRevision { s with tables, blobs } permit.resourceId now
  let s ← s.insertEvent sha256 {
    eventId, resourceId := permit.resourceId, resourceRevision := revision, eventType
    actor := permit.actor, leaseGeneration := permit.lease.map LeaseClaim.generation, payload
    recordedAt := now }
  .ok (⟨value, revision, eventId⟩, s)

/-! ## Calls -/

/-- A call of any owner on any resource. -/
inductive Action (σ : Type) where
  | ensureResource (type : ResourceType) (aggregateKey : String) (now : Int)
  | claim (options : ClaimOptions)
  | renew (claim : LeaseClaim) (expectedRevision : Nat) (leaseMs now : Int) (eventId : String)
  | release (claim : LeaseClaim) (expectedRevision : Nat) (now : Int) (eventId : String)
  | mutate (permit : WritePermit) (eventType : String) (apply : Apply σ) (payload : Option Json)
      (now : Int) (eventId : String)

inductive Reply where
  | ensured (resourceId : String)
  | claimed (claim : Option LeaseClaim)
  | renewed (claim : LeaseClaim)
  | released (revision : Nat)
  | mutated (result : MutationResult)

def act : Action σ → Except String (Reply × MutationStore σ)
  | .ensureResource type aggregateKey now =>
      (s.ensureResource sha256 type aggregateKey now).map fun r => (.ensured r.1, r.2)
  | .claim options => (s.claim sha256 options).map fun r => (.claimed r.1, r.2)
  | .renew claim expectedRevision leaseMs now eventId =>
      (s.renew sha256 claim expectedRevision leaseMs now eventId).map fun r => (.renewed r.1, r.2)
  | .release claim expectedRevision now eventId =>
      (s.release sha256 claim expectedRevision now eventId).map fun r => (.released r.1, r.2)
  | .mutate permit eventType apply payload now eventId =>
      (s.mutate sha256 permit eventType apply payload now eventId).map fun r => (.mutated r.1, r.2)

/-- One call, where the answer does not matter. -/
def step (s : MutationStore σ) (action : Action σ) : Except String (MutationStore σ) :=
  (s.act sha256 action).map Prod.snd

/-- Calls in any order; one that throws is rolled back. -/
def run (actions : List (Action σ)) : MutationStore σ :=
  Trace.served (step sha256) s actions

end MutationStore

end PiWorkflows
