import PiWorkflows.ResourceManagers.Store

/-!
# Ensuring an external effect (`resource-managers/effects.ts`)

A reconciliation pass has its claim for itself and ensures at most one effect. The
call reserves the effect, asks whether an effect that was reserved before has been
applied, applies it if it was not, and writes down what became of it.

A pass is where its call has got to. Between two stages anything may happen:
another pass, with a later claim, may go through all of its stages, and the
process may crash (`drop`), whether it waits for the outside world, is about to
call it, or has an answer that it has not written down. What the outside world
answers comes in with the action. Effects are reserved and settled by passes only;
all other calls of the store may come at any time. A long error is cut after so
many characters instead of code units.
-/

namespace PiWorkflows

open Fallible

/-- `EffectObservation`. -/
inductive EffectObservation where
  | applied (externalRef : Option String)
  | not_applied
  | indeterminate

/-- `EffectApplication`. -/
inductive EffectApplication where
  | applied (externalRef : Option String)
  | rejected (error : String)
  | indeterminate (error : Option String)

/-- `EffectDefinition`, without its two callbacks. -/
structure EffectDefinition where
  key : String
  kind : String
  request : Json

/-- What a pass knows of its resource. -/
structure ResourceMetadata where
  ref : ManagedResourceRef
  uid : String
  generation : Nat

/-- Where a call of `ensure` has got to. -/
inductive EnsureStage where
  /-- In `definition.observe`. -/
  | observing
  | observed (answer : Except String EffectObservation)
  /-- At the call of `definition.apply`. -/
  | ready
  | applying
  | answered (answer : Except String EffectApplication)
  /-- At `recordEvent`, before the result is returned or thrown. -/
  | recording (type : String) (result : Except String EffectRecord)
  | ended (result : Except String EffectRecord)

/-- The claim of a pass, as the store tells claims apart. -/
structure PassKey where
  ref : ManagedResourceRef
  generation : Nat
  deriving DecidableEq

def ResourceClaim.passKey (claim : ResourceClaim) : PassKey :=
  ⟨claim.ref, claim.generation⟩

/-- A `ResourceManagerEffectService` that was used. -/
structure EnsurePass where
  resource : ResourceMetadata
  claim : ResourceClaim
  definition : EffectDefinition
  stage : EnsureStage

structure EnsureState where
  store : ManagedStore
  passes : Table PassKey EnsurePass

/-- `boundedError`. -/
def boundedError (message : String) : String :=
  if utf16Length message ≤ 8192 then message
  else String.ofList (message.toList.take 8192) ++ "…"

namespace EnsureState

variable (sha256 : String → String) (s : EnsureState)

/-- A project without resources, and no passes. -/
def fresh (projectId : String) : EnsureState :=
  ⟨.empty projectId, .empty⟩

/-- `ensure`, up to the first time it waits. -/
def reserve (store : ManagedStore) (resource : ResourceMetadata) (claim : ResourceClaim)
    (definition : EffectDefinition) (now : Int) : EnsureStage × ManagedStore :=
  match store.reserveEffect sha256 {
    key := definition.key, resourceUid := resource.uid, claim
    generation := resource.generation, kind := definition.kind
    requestFingerprint := jsonHash sha256 definition.request, now } with
  | .error message => (.ended (.error message), store)
  | .ok ((record, created), store) =>
      if record.state = .applied ∨ record.state = .rejected then (.ended (.ok record), store)
      else if created then (.ready, store) else (.observing, store)

/-- `ensure`, of a service that was not used. -/
def ensure (resource : ResourceMetadata) (claim : ResourceClaim) (definition : EffectDefinition)
    (now : Int) : Except String EnsureState := do
  let (stage, store) := reserve sha256 s.store resource claim definition now
  let passes ← orThrow "A reconciliation pass may ensure only one external effect"
    (s.passes.insert? claim.passKey ⟨resource, claim, definition, stage⟩)
  pure { store, passes }

/-- `updateEffect`, and the event that is recorded after it. -/
def settle (store : ManagedStore) (pass : EnsurePass) (state : EffectRecord.State)
    (externalRef error : Option String) (type : String) (now : Int) : EnsureStage × ManagedStore :=
  match store.updateEffect sha256 {
    resourceUid := pass.resource.uid, key := pass.definition.key, claim := pass.claim, state
    externalRef, error, now } with
  | .ok (record, store) => (.recording type (.ok record), store)
  | .error message => (.ended (.error message), store)

/-- `applyObservation`, or the `catch` of `observe`. -/
def applyObservation (store : ManagedStore) (pass : EnsurePass) (now : Int) :
    Except String EffectObservation → EnsureStage × ManagedStore
  | .error message => (.recording "effect_observe_failed" (.error message), store)
  | .ok .not_applied => (.ready, store)
  | .ok (.applied externalRef) =>
      settle sha256 store pass .applied externalRef none "effect_recovered" now
  | .ok .indeterminate =>
      settle sha256 store pass .indeterminate none none "effect_indeterminate" now

/-- `apply`, once the outside world has answered. -/
def applyAnswer (store : ManagedStore) (pass : EnsurePass) (now : Int) :
    Except String EffectApplication → EnsureStage × ManagedStore
  | .error message =>
      settle sha256 store pass .indeterminate none (some (boundedError message))
        "effect_indeterminate" now
  | .ok (.applied externalRef) =>
      settle sha256 store pass .applied externalRef none "effect_applied" now
  | .ok (.rejected error) =>
      settle sha256 store pass .rejected none (some error) "effect_rejected" now
  | .ok (.indeterminate error) =>
      settle sha256 store pass .indeterminate none error "effect_indeterminate" now

/-- `recordEvent`, and the end of the call. -/
def recordEvent (store : ManagedStore) (pass : EnsurePass) (result : Except String EffectRecord)
    (now : Int) : EnsureStage × ManagedStore :=
  match store.recordEvent sha256 pass.resource.ref (some pass.claim) now with
  | .ok store => (.ended result, store)
  | .error message => (.ended (.error message), store)

inductive Action where
  | other (action : ManagedStore.Action)
  | ensure (resource : ResourceMetadata) (claim : ResourceClaim) (definition : EffectDefinition)
      (now : Int)
  | observe (key : PassKey) (answer : Except String EffectObservation)
  | settleObservation (key : PassKey) (now : Int)
  | apply (key : PassKey)
  | answer (key : PassKey) (answer : Except String EffectApplication)
  | settleAnswer (key : PassKey) (now : Int)
  | record (key : PassKey) (now : Int)
  | drop (key : PassKey)

/-- What a pass does next, if it has got to the stage for it. -/
def proceed (store : ManagedStore) (pass : EnsurePass) :
    Action → Option (EnsureStage × ManagedStore)
  | .observe _ answer =>
      match pass.stage with
      | .observing => some (.observed answer, store)
      | _ => none
  | .settleObservation _ now =>
      match pass.stage with
      | .observed answer => some (applyObservation sha256 store pass now answer)
      | _ => none
  | .apply _ =>
      match pass.stage with
      | .ready => some (.applying, store)
      | _ => none
  | .answer _ answer =>
      match pass.stage with
      | .applying => some (.answered answer, store)
      | _ => none
  | .settleAnswer _ now =>
      match pass.stage with
      | .answered answer => some (applyAnswer sha256 store pass now answer)
      | _ => none
  | .record _ now =>
      match pass.stage with
      | .recording _ result => some (recordEvent sha256 store pass result now)
      | _ => none
  | .other _ | .ensure _ _ _ _ | .drop _ => none

/-- One step of the pass that has the claim. -/
def advance (key : PassKey) (action : Action) : Except String EnsureState := do
  let pass ← orThrow "There is no such pass" (s.passes.get? key)
  let (stage, store) ← orThrow "The pass is not there yet" (proceed sha256 s.store pass action)
  pure { store, passes := s.passes.update key fun pass => { pass with stage } }

/-- A call of the store that is no part of `ensure`. -/
def otherCall : ManagedStore.Action → Except String EnsureState
  | .reserveEffect _ | .updateEffect _ => .error "Effects are reserved and settled by passes"
  | action => (s.store.step sha256 action).map fun store => { s with store }

def step (s : EnsureState) : Action → Except String EnsureState
  | .other action => s.otherCall sha256 action
  | .ensure resource claim definition now => s.ensure sha256 resource claim definition now
  | .drop key => .ok { s with passes := s.passes.erase key }
  | .observe key answer => s.advance sha256 key (.observe key answer)
  | .settleObservation key now => s.advance sha256 key (.settleObservation key now)
  | .apply key => s.advance sha256 key (.apply key)
  | .answer key answer => s.advance sha256 key (.answer key answer)
  | .settleAnswer key now => s.advance sha256 key (.settleAnswer key now)
  | .record key now => s.advance sha256 key (.record key now)

/-- What is done, one action after the other, each of which has to be possible. -/
def run (projectId : String) (actions : List Action) : Except String EnsureState :=
  Trace.accepted (step sha256) (fresh projectId) actions

end EnsureState

end PiWorkflows
