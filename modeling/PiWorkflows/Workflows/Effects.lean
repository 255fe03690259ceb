import PiWorkflows.Workflows.RunStore

/-!
# Managed effects (`workflows/store.ts`)

An action node reserves its effect before it does anything outside the store and
settles it afterwards. A reservation is kept under the run, the type and the
idempotency key of the effect, together with the request it is for. Only the
answer `execute` allows the node to act. A runner that is gone leaves its effect
`applying`, and `recoverApplyingEffects` decides by the recovery the effect was
reserved with whether it may be tried again.

The resource of an effect and its events are left out, and with them the attempt
of the node, which only an event names.
-/

namespace PiWorkflows

open Fallible

/-- `WorkflowEffectRecovery`. -/
inductive EffectRecovery where
  | idempotent
  | manual
  deriving DecidableEq

def EffectRecovery.text : EffectRecovery → String
  | .idempotent => "idempotent"
  | .manual => "manual"

/-- The options of `reserveEffect`. -/
structure EffectOptions where
  runId : String
  effectType : String
  idempotencyKey : String
  request : Json
  recovery : EffectRecovery

/-- The payload a reservation is compared by. -/
def EffectOptions.payload (options : EffectOptions) : Json :=
  .obj [("recovery", .str options.recovery.text), ("request", options.request)]

/-- `disposition` of a reservation; an adopted one has the stored result. -/
inductive Disposition where
  | execute
  | adopted (result : Option Json)
  | ambiguous
  deriving DecidableEq

/-- `WorkflowEffectReservation`. -/
structure EffectReservation where
  effectId : String
  attemptNumber : Nat
  disposition : Disposition
  deriving DecidableEq

/-- `requireBoundedEffectText`. -/
def requireBoundedEffectText (value label : String) : Except String PUnit :=
  require (value ≠ "" ∧ utf16Length value ≤ 256)
    s!"Managed effect {label} must be nonempty text of at most 256 characters"

/-- `effectRecoveryFromPayload`. -/
def effectRecoveryFromPayload (payload : Json) : EffectRecovery :=
  if textMember payload "recovery" = some "idempotent" then .idempotent else .manual

/-- The outcomes of `settleEffect`. -/
inductive EffectOutcome where
  | applied
  | rejected
  | ambiguous
  | cancelled
  deriving DecidableEq

def EffectOutcome.status : EffectOutcome → EffectStatus
  | .applied => .applied
  | .rejected => .rejected
  | .ambiguous => .ambiguous
  | .cancelled => .cancelled

/-- A cancelled effect interrupts its attempt. -/
def EffectOutcome.attemptOutcome : EffectOutcome → EffectAttemptOutcome
  | .applied => .applied
  | .rejected => .rejected
  | .ambiguous => .ambiguous
  | .cancelled => .interrupted

section

variable (sha256 : String → String)

/-- The id of the effect that the options are about. -/
def EffectOptions.effectId (options : EffectOptions) : String :=
  workflowEffectId sha256 (resourceIdFor sha256 "run" options.runId) options.effectType
    options.idempotencyKey

variable (db : Db) (context : StoreContext) (now : Int)

/-- The authority a call acts under. -/
def StoreContext.actor (context : StoreContext) : Option RunWriteAuthority :=
  context.authority.join

/-- `insertEffectAttempt`. -/
def insertEffectAttempt (effectId : String) (attemptNumber : Nat) : Except String Db := do
  let attempt : EffectAttemptRow :=
    { ownerId := (context.actor.map RunWriteAuthority.ownerId).getD "system"
      leaseGeneration := (context.actor.map RunWriteAuthority.generation).getD 1
      startedAt := now }
  let effectAttempts ← orThrow
    "UNIQUE constraint failed: effect_attempts.effect_id, effect_attempts.attempt_number"
    (db.effectAttempts.insert? (effectId, attemptNumber) attempt)
  pure { db with effectAttempts := effectAttempts }

/-- `beginEffectAttempt`. -/
def beginEffectAttempt (effectId : String) (attemptNumber : Nat) :
    Except String (Db × EffectReservation) := do
  let retried :=
    { db with
      effects := db.effects.update effectId fun effect =>
        { effect with
          status := .applying, attemptCount := attemptNumber, error := none, updatedAt := now
          settledAt := none } }
  let started ← insertEffectAttempt retried context now effectId attemptNumber
  pure (started, ⟨effectId, attemptNumber, .execute⟩)

/-- A reservation of an effect that is stored already. -/
def reserveAgain (options : EffectOptions) (existing : EffectRow) :
    Except String (Db × EffectReservation) := do
  let effectId := options.effectId sha256
  require (jsonHash sha256 existing.payload = jsonHash sha256 options.payload)
    "Managed effect key was reused with another request"
  match existing.status with
  | .applied => pure (db, ⟨effectId, existing.attemptCount, .adopted existing.result⟩)
  | .pending => beginEffectAttempt db context now effectId (existing.attemptCount + 1)
  | .applying | .rejected | .ambiguous | .cancelled =>
      pure (db, ⟨effectId, existing.attemptCount, .ambiguous⟩)

/-- The first reservation of an effect. -/
def reserveFirst (options : EffectOptions) : Except String (Db × EffectReservation) := do
  let effectId := options.effectId sha256
  let effect : EffectRow :=
    { sourceRun := some options.runId, sourceRevision := context.revision
      effectType := options.effectType, idempotencyKey := options.idempotencyKey
      payload := storedJson options.payload, ownerScope := .run, status := .applying
      attemptCount := 1, createdAt := now, updatedAt := now }
  let effects ← orThrow "UNIQUE constraint failed: effects.effect_id"
    (db.effects.insert? effectId effect)
  let started ← insertEffectAttempt { db with effects := effects } context now effectId 1
  pure (started, ⟨effectId, 1, .execute⟩)

/-- `reserveEffect`. -/
def reserveEffect (options : EffectOptions) : Except String (Db × EffectReservation) := do
  requireBoundedEffectText options.effectType "type"
  requireBoundedEffectText options.idempotencyKey "idempotency key"
  let authorized ← assertWriteAuthority sha256 db options.runId context now
  match authorized.effects.get? (options.effectId sha256) with
  | some existing => reserveAgain sha256 authorized context now options existing
  | none => reserveFirst sha256 authorized context now options

/-- `settleEffect`. -/
def settleEffect (runId effectId : String) (attemptNumber : Nat) (outcome : EffectOutcome)
    (result : Option Json) (error : Option String) : Except String Db := do
  let authorized ← assertWriteAuthority sha256 db runId context now
  let effect ← orThrow "Managed effect is not applying"
    ((authorized.effects.get? effectId).filter fun effect =>
      effect.sourceRun = some runId ∧ effect.status = .applying)
  require (effect.attemptCount = attemptNumber) "Managed effect attempt changed"
  let stored := result.map storedJson
  pure { authorized with
    effects := authorized.effects.update effectId fun effect =>
      { effect with
        status := outcome.status, result := stored, error := error, updatedAt := now
        settledAt := some now }
    effectAttempts := authorized.effectAttempts.updateWhere
      (fun key attempt => key = (effectId, attemptNumber) ∧ attempt.finishedAt = none)
      fun attempt =>
        { attempt with
          finishedAt := some now, outcome := some outcome.attemptOutcome, result := stored
          error := error } }

/-- An effect of the run that nobody has settled. -/
def isApplyingEffect (runId : String) (effect : EffectRow) : Bool :=
  effect.sourceRun = some runId ∧ effect.status = .applying

/-- Whether an effect that is applying has to be looked at by a person. -/
def needsRecovery (effect : EffectRow) : Bool :=
  effectRecoveryFromPayload effect.payload = .manual

/-- An effect after its recovery: tried again, or left to a person. -/
def recoverEffect (effect : EffectRow) : EffectRow :=
  { effect with
    status := if needsRecovery effect then .ambiguous else .pending
    updatedAt := now, settledAt := if needsRecovery effect then some now else none }

/-- The answers of `recoverApplyingEffects`. -/
inductive RecoveryAnswer where
  | safe
  | ambiguous
  deriving DecidableEq

/-- `recoverApplyingEffects`. -/
def recoverApplyingEffects (runId : String) : Except String (Db × RecoveryAnswer) := do
  let authorized ← assertWriteAuthority sha256 db runId context now
  let recovered :=
    { authorized with
      effects := authorized.effects.updateWhere (fun _ effect => isApplyingEffect runId effect)
        (recoverEffect now)
      effectAttempts := authorized.effectAttempts.updateWhere
        (fun key attempt => attempt.finishedAt = none ∧
          (authorized.effects.get? key.1).any fun effect =>
            isApplyingEffect runId effect = true ∧ effect.attemptCount = key.2)
        fun attempt => { attempt with finishedAt := some now, outcome := some .interrupted } }
  let isAmbiguous := authorized.effects.any fun _ effect =>
    isApplyingEffect runId effect = true ∧ needsRecovery effect = true
  pure (recovered, if isAmbiguous then .ambiguous else .safe)

end

end PiWorkflows
