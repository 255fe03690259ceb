import PiWorkflows.Lib.Table
import PiWorkflows.Js.Json

/-!
# The state database (`state/schema.ts`)

The tables a run and its queue entry, requests, attempts and effects live in,
with the columns the modelled operations read or write. A status column is an
enumeration, and where a `CHECK` of the schema ties columns together the columns
are one value that cannot break it: a lease has all columns of an owner or none
(`Lease.owner`), a settled request has its accepted submission and the time it
was settled.

A column that holds a blob's hash holds the blob. The revision of a run is the
one of its resource, and the lease of a run is kept under the run's own id,
since each run has one resource and each resource one lease. Tables of events,
viewer deltas, messages and sources are left out: nothing here reads them.
-/

namespace PiWorkflows

/-! ## Blobs -/

/-- `putJson` followed by `readJson`: the value in the order of its text. -/
def storedJson (value : Json) : Json :=
  normalizeJson value

/-- The digest under which a blob of JSON is stored. -/
def jsonHash (sha256 : String → String) (value : Json) : String :=
  sha256 (canonicalJson value)

/-! ## Statuses -/

/-- `runs.status`. -/
inductive StoredRunStatus where
  | queued
  | running
  | waiting
  | completed
  | failed
  | timed_out
  | cancelled
  deriving DecidableEq, Repr

def StoredRunStatus.text : StoredRunStatus → String
  | .queued => "queued"
  | .running => "running"
  | .waiting => "waiting"
  | .completed => "completed"
  | .failed => "failed"
  | .timed_out => "timed_out"
  | .cancelled => "cancelled"

/-- `'completed', 'failed', 'timed_out', 'cancelled'`. -/
def StoredRunStatus.isTerminal : StoredRunStatus → Bool
  | .queued | .running | .waiting => false
  | .completed | .failed | .timed_out | .cancelled => true

/-- `run_queue.status` (`WorkflowRunLaunchStatus`). -/
inductive QueueStatus where
  | queued
  | starting
  | running
  | parked
  | done
  | failed
  | cancelled
  deriving DecidableEq, Repr

def QueueStatus.text : QueueStatus → String
  | .queued => "queued"
  | .starting => "starting"
  | .running => "running"
  | .parked => "parked"
  | .done => "done"
  | .failed => "failed"
  | .cancelled => "cancelled"

/-- `'done', 'failed', 'cancelled'`; the others are `ACTIVE_SESSION_QUEUE_STATUSES`. -/
def QueueStatus.isTerminal : QueueStatus → Bool
  | .queued | .starting | .running | .parked => false
  | .done | .failed | .cancelled => true

/-- `node_attempts.status`. -/
inductive AttemptStatus where
  | pending
  | running
  | waiting
  | interrupted
  | completed
  | failed
  | timed_out
  | cancelled
  deriving DecidableEq, Repr

/-- `'pending', 'running', 'waiting', 'interrupted'`. -/
def AttemptStatus.isOpen : AttemptStatus → Bool
  | .pending | .running | .waiting | .interrupted => true
  | .completed | .failed | .timed_out | .cancelled => false

/-- `run_bindings.execution_mode`. -/
inductive ExecutionMode where
  | interactive
  | headless
  deriving DecidableEq, Repr

/-- `leases.owner_type`. -/
inductive OwnerType where
  | session
  | server
  | resource_manager
  | channel
  | system
  deriving DecidableEq, Repr

/-- `ActorType`. -/
inductive ActorType where
  | session
  | server
  | resource_manager
  | channel
  | human
  | policy
  | control
  | system
  deriving DecidableEq, Repr

def ActorType.text : ActorType → String
  | .session => "session"
  | .server => "server"
  | .resource_manager => "resource_manager"
  | .channel => "channel"
  | .human => "human"
  | .policy => "policy"
  | .control => "control"
  | .system => "system"

/-- `MutationActor`. -/
structure MutationActor where
  type : ActorType
  id : Option String := none
  deriving DecidableEq

/-- `interactive_requests.kind`. -/
inductive RequestKind where
  | agent
  | assistant
  | checkpoint
  | decision
  deriving DecidableEq, Repr

/-- `interactive_requests.status`, with the columns the schema ties to it. -/
inductive RequestStatus where
  | pending
  | settled (acceptedSubmissionId : String) (settledAt : Int)
  | cancelled
  deriving DecidableEq, Repr

/-- `interactive_requests.accepted_submission_id`. -/
def RequestStatus.acceptedSubmissionId : RequestStatus → Option String
  | .settled submissionId _ => some submissionId
  | .pending | .cancelled => none

/-- `interactive_submissions.outcome`. -/
inductive SubmissionOutcome where
  | validating
  | accepted
  | rejected
  | adopted
  deriving DecidableEq, Repr

/-- `effects.owner_scope`. -/
inductive EffectScope where
  | run
  | resource_manager
  | channel
  | system
  deriving DecidableEq, Repr

/-- `effects.status`. -/
inductive EffectStatus where
  | pending
  | applying
  | applied
  | rejected
  | ambiguous
  | cancelled
  deriving DecidableEq, Repr

/-- `effect_attempts.outcome`. -/
inductive EffectAttemptOutcome where
  | applied
  | rejected
  | ambiguous
  | interrupted
  deriving DecidableEq, Repr

/-- `workflow_follow_ups.status`, with the reason the schema ties to it. -/
inductive FollowUpStatus where
  | queued
  | removed (reason : String)
  | cancelled (reason : String)
  deriving DecidableEq, Repr

/-! ## Rows -/

/-- A row of `runs`, with its definition's name and its resource's revision. -/
structure RunRow where
  status : StoredRunStatus
  paused : Bool := false
  statusDetail : Option String := none
  finalOutput : Option Json := none
  error : Option String := none
  finishedAt : Option Int := none
  updatedAt : Int
  workflowName : String
  workflowRef : String
  workflowSource : Json
  definitionDigest : String
  input : Json
  launchOptions : Json
  parentRunId : Option String := none
  rootRunId : String
  restartNumber : Nat := 0
  parentRunRevision : Option Nat := none
  revision : Nat

/-- A row of `run_queue`. -/
structure QueueRow where
  status : QueueStatus
  availableAt : Int
  originSessionId : Option String
  consecutiveErrors : Nat := 0
  errorCode : Option String := none
  error : Option String := none
  createdAt : Int
  updatedAt : Int
  startedAt : Option Int := none
  finishedAt : Option Int := none

/-- A row of `run_bindings`. -/
structure BindingRow where
  originSessionId : String
  executionMode : ExecutionMode
  deriving DecidableEq

/-- The columns of a lease that has an owner. -/
structure LeaseOwner where
  type : OwnerType
  id : String
  tokenHash : String
  acquiredAt : Int
  heartbeatAt : Int
  expiresAt : Int
  deriving DecidableEq

/-- A row of `leases`. -/
structure Lease where
  generation : Nat
  owner : Option LeaseOwner
  deriving DecidableEq

/-- A row of `node_attempts`. Durations are in milliseconds. -/
structure AttemptRow where
  runId : String
  nodeId : String
  attemptNumber : Nat
  status : AttemptStatus
  error : Option String := none
  timeoutMs : Option Nat := none
  startedAt : Option Int := none
  finishedAt : Option Int := none
  updatedAt : Int

/-- A row of `attempt_active_intervals`, under its attempt and number. -/
structure IntervalRow where
  startedAt : Int
  observedAt : Int
  endedAt : Option Int := none
  elapsedMs : Nat := 0

/-- A row of `interactive_requests`. -/
structure RequestRow where
  runId : String
  attemptId : String
  targetSessionId : String
  kind : RequestKind
  contract : Json
  revision : Nat
  status : RequestStatus
  createdAt : Int
  updatedAt : Int
  consumedAt : Option Int := none

/-- A row of `interactive_submissions`. -/
structure SubmissionRow where
  requestId : String
  idempotencyKey : String
  requestRevision : Nat
  payload : Json
  outcome : SubmissionOutcome
  receipt : Option Json := none
  submittedAt : Int

/-- A row of `human_decisions`. -/
structure DecisionRow where
  runId : String
  attemptId : String
  request : Json
  requestDigest : String

/-- A row of `human_decision_resolutions`: the response, or the reason there is none. -/
structure ResolutionRow where
  outcome : Except String Json
  actorId : Option String
  requestDigest : String
  resolvedAt : Int

/-- A row of `effects`; `sourceRun` is the run whose resource is the source. -/
structure EffectRow where
  sourceRun : Option String
  sourceRevision : Nat
  effectType : String
  idempotencyKey : String
  payload : Json
  ownerScope : EffectScope
  status : EffectStatus
  attemptCount : Nat
  nextAttemptAt : Option Int := none
  result : Option Json := none
  error : Option String := none
  createdAt : Int
  updatedAt : Int
  settledAt : Option Int := none

/-- A row of `effect_attempts`, under its effect and number. -/
structure EffectAttemptRow where
  ownerId : String
  leaseGeneration : Nat
  startedAt : Int
  finishedAt : Option Int := none
  outcome : Option EffectAttemptOutcome := none
  result : Option Json := none
  error : Option String := none

/-- A row of `workflow_follow_ups`. -/
structure FollowUpRow where
  runId : String
  requestId : String
  prompt : String
  status : FollowUpStatus
  updatedAt : Int

/-! ## The database -/

structure Db where
  runs : Table String RunRow
  runQueue : Table String QueueRow
  bindings : Table String BindingRow
  leases : Table String Lease
  attempts : Table String AttemptRow
  intervals : Table (String × Nat) IntervalRow
  requests : Table String RequestRow
  submissions : Table String SubmissionRow
  decisions : Table String DecisionRow
  resolutions : Table String ResolutionRow
  effects : Table String EffectRow
  effectAttempts : Table (String × Nat) EffectAttemptRow
  followUps : Table String FollowUpRow

namespace Db

/-- A database after its schema was created. -/
def empty : Db where
  runs := .empty
  runQueue := .empty
  bindings := .empty
  leases := .empty
  attempts := .empty
  intervals := .empty
  requests := .empty
  submissions := .empty
  decisions := .empty
  resolutions := .empty
  effects := .empty
  effectAttempts := .empty
  followUps := .empty

variable (db : Db) (runId : String)

def updateRun (f : RunRow → RunRow) : Db := { db with runs := db.runs.update runId f }

def updateQueue (f : QueueRow → QueueRow) : Db :=
  { db with runQueue := db.runQueue.update runId f }

def updateLease (f : Lease → Lease) : Db := { db with leases := db.leases.update runId f }

/-- `bumpResource` of a run. -/
def bumpRun : Db := db.updateRun runId fun run => { run with revision := run.revision + 1 }

/-- Whether a request of the run is pending. -/
def hasPendingRequest : Bool :=
  db.requests.any fun _ request => request.runId = runId ∧ request.status = .pending

/-- `closeRunTime`. -/
def closeRunTime : Db :=
  { db with
    intervals := db.intervals.updateWhere
      (fun key interval => interval.endedAt = none ∧
        (db.attempts.get? key.1).any (fun attempt => attempt.runId = runId))
      fun interval => { interval with endedAt := some interval.observedAt } }

/-- `closeAttemptTime`. -/
def closeAttemptTime (attemptId : String) : Db :=
  { db with
    intervals := db.intervals.updateWhere
      (fun key interval => key.1 = attemptId ∧ interval.endedAt = none)
      fun interval => { interval with endedAt := some interval.observedAt } }

end Db

/-! ## Leases -/

namespace Lease

/-- The lease has an owner whose time is not over. -/
def isLive (lease : Lease) (now : Int) : Bool :=
  lease.owner.any fun owner => now < owner.expiresAt

/-- The live owner of the lease was given the token. -/
def isHeldBy (sha256 : String → String) (lease : Lease) (token : String) (now : Int) : Bool :=
  lease.owner.any fun owner => owner.tokenHash = sha256 token ∧ now < owner.expiresAt

/-- Another owner, under the next generation. -/
def claim (lease : Lease) (owner : LeaseOwner) : Lease :=
  ⟨lease.generation + 1, some owner⟩

/-- No owner, under the same generation. -/
def release (lease : Lease) : Lease :=
  { lease with owner := none }

end Lease

end PiWorkflows
