import Mathlib.Data.List.Induction
import PiWorkflows.Lib.Latch
import PiWorkflows.Proofs.ReservedEffects
import PiWorkflows.ResourceManagers.Effects

/-!
# When an effect is applied

An effect is a latch: shut once it is stored as applied or rejected, with the
generation of the lease as the good permit and, as parties, the passes that may
still settle it (`latch`). Every action is a step of every latch (`step_latch`), so a
shut effect stays shut, whatever passes with old claims still wait for.

A pass that is about to apply has found the effect open, and has reserved it
itself or was told that it is not applied (`Began`). With what the latch says about
the time before, this is all there is to `ensure_applies`.
-/

namespace PiWorkflows

open Fallible

namespace ManagedStore

variable {sha256 : String → String} {s s' : ManagedStore}

/-! ## Names with a lease -/

variable (sha256) in
/-- Names with a lease have ids of their own, and effects are of such names. -/
structure Placed (s : ManagedStore) : Prop where
  named : ∀ ref, (s.db.leases.get? ref).isSome = true →
    (s.aggregates.get? (s.resourceIdOf sha256 ref)).isSome = true
  refs : ∀ ref ref', (s.db.leases.get? ref).isSome = true →
    (s.db.leases.get? ref').isSome = true →
      s.resourceIdOf sha256 ref = s.resourceIdOf sha256 ref' → ref = ref'
  sources : ∀ id effect, s.effects.get? id = some effect →
    ∃ ref, (s.db.leases.get? ref).isSome = true ∧
      effect.sourceResourceId = s.resourceIdOf sha256 ref

theorem placed_empty (projectId : String) : Placed sha256 (empty projectId) := by
  refine ⟨fun _ h => ?_, fun _ _ h => ?_, fun _ _ h => ?_⟩ <;> cases h

theorem leases_kept {action : Action} (h : s.step sha256 action = .ok s') {ref : ManagedResourceRef}
    (hlease : (s.db.leases.get? ref).isSome = true) : (s'.db.leases.get? ref).isSome = true := by
  rcases step_leases h with hsame | ⟨target, -, -, hothers, hnone⟩
  · rw [hsame.isSome]
    exact hlease
  · rw [hothers]
    · exact hlease
    · rintro rfl
      rw [hnone] at hlease
      cases hlease

theorem generation_le {action : Action} (h : s.step sha256 action = .ok s')
    (ref : ManagedResourceRef) : (s.db.cell ref).generation ≤ (s'.db.cell ref).generation := by
  rcases step_leases h with hsame | ⟨target, -, -, hothers, hnone⟩
  · exact hsame.generation ref
  · by_cases href : ref = target
    · subst href
      rw [ResourceDb.cell, hnone]
      exact Nat.zero_le _
    · rw [ResourceDb.cell, ResourceDb.cell, hothers ref href]

theorem placed_step {action : Action} (hs : Placed sha256 s) (h : s.step sha256 action = .ok s') :
    Placed sha256 s' := by
  have hgrows := (step_ok h).2
  refine ⟨fun ref hlease => ?_, fun ref ref' hlease hlease' hid => ?_, fun id effect heffect => ?_⟩
  · rcases step_leases h with hsame | ⟨target, -, htarget, hothers, -⟩
    · rw [hsame.isSome] at hlease
      exact hgrows.named_of (hs.named ref hlease)
    · by_cases href : ref = target
      · rw [hgrows.resourceIdOf, href]
        exact htarget
      · rw [hothers ref href] at hlease
        exact hgrows.named_of (hs.named ref hlease)
  · rw [hgrows.resourceIdOf, hgrows.resourceIdOf] at hid
    rcases step_leases h with hsame | ⟨target, hfree, -, hothers, -⟩
    · rw [hsame.isSome] at hlease hlease'
      exact hs.refs ref ref' hlease hlease' hid
    · by_cases href : ref = target
      · by_cases href' : ref' = target
        · rw [href, href']
        · rw [hothers ref' href'] at hlease'
          have hnamed := hs.named ref' hlease'
          rw [← hid, href, hfree] at hnamed
          cases hnamed
      · rw [hothers ref href] at hlease
        by_cases href' : ref' = target
        · have hnamed := hs.named ref hlease
          rw [hid, href', hfree] at hnamed
          cases hnamed
        · rw [hothers ref' href'] at hlease'
          exact hs.refs ref ref' hlease hlease' hid
  · have hold : ∀ old, s.effects.get? id = some old →
        effect.sourceResourceId = old.sourceResourceId →
          ∃ ref, (s'.db.leases.get? ref).isSome = true ∧
            effect.sourceResourceId = s'.resourceIdOf sha256 ref := by
      intro old hget hsource
      obtain ⟨ref, hlease, hid⟩ := hs.sources id old hget
      exact ⟨ref, leases_kept h hlease, by rw [hsource, hid, hgrows.resourceIdOf]⟩
    cases step_effects h with
    | kept heq => exact hold effect (heq ▸ heffect) rfl
    | reserved new ref hlease hsource hfree hget =>
        rw [hget] at heffect
        split at heffect
        · obtain rfl := Option.some.inj heffect
          exact ⟨ref, leases_kept h hlease, by rw [hsource, hgrows.resourceIdOf]⟩
        · exact hold effect heffect rfl
    | settled effectId f hf heq =>
        rw [heq, Table.get?_update] at heffect
        split at heffect
        · obtain ⟨old, hget, rfl⟩ := Option.map_eq_some_iff.1 heffect
          exact hold old hget (hf old).sourceResourceId
        · exact hold effect heffect rfl

/-! ## What is stored of an effect -/

variable (sha256) in
/-- The effect that the key names for the resource is stored in the state. -/
def Stored (s : ManagedStore) (ref : ManagedResourceRef) (key : String)
    (state : EffectRecord.State) : Prop :=
  ∃ id effect, s.effects.get? id = some effect ∧
    effect.sourceResourceId = s.resourceIdOf sha256 ref ∧ effect.idempotencyKey = key ∧
    effect.status = state

variable (sha256) in
/-- Nothing is to be done about it any more. -/
def Settled (s : ManagedStore) (ref : ManagedResourceRef) (key : String) : Prop :=
  Stored sha256 s ref key .applied ∨ Stored sha256 s ref key .rejected

theorem Addressed.stored_unique {ref : ManagedResourceRef} {key : String}
    {state state' : EffectRecord.State} (hs : Addressed sha256 s)
    (h : Stored sha256 s ref key state) (h' : Stored sha256 s ref key state') : state = state' := by
  obtain ⟨id, effect, heffect, hsource, hkey, rfl⟩ := h
  obtain ⟨id', effect', heffect', hsource', hkey', rfl⟩ := h'
  have hid := hs.effects id effect heffect
  have hid' := hs.effects id' effect' heffect'
  rw [hsource, hkey] at hid
  rw [hsource', hkey', ← hid] at hid'
  rw [hid', heffect] at heffect'
  rw [Option.some.inj heffect']

theorem stored_congr {ref : ManagedResourceRef} (hproject : s'.projectId = s.projectId)
    (heffects : s'.effects = s.effects) (key : String) (state : EffectRecord.State) :
    Stored sha256 s' ref key state ↔ Stored sha256 s ref key state := by
  rw [Stored, Stored, heffects, resourceIdOf, hproject, resourceIdOf]

/-- The row that is read for a uid and a key is stored for the name that has the uid. -/
theorem effectRow_stored {uid key effectId : String} {record : EffectRecord}
    {ref : ManagedResourceRef} {resource : ManagedResourceRow}
    (hfind : s.db.resources.find? (fun _ row => row.uid = uid) = some (ref, resource))
    (hrow : s.effectRow sha256 uid key = some (effectId, record)) :
    ∃ effect, s.effects.get? effectId = some effect ∧
      effect.sourceResourceId = s.resourceIdOf sha256 ref ∧ effect.idempotencyKey = key ∧
      effect.status = record.state := by
  rw [effectRow_of_find hfind] at hrow
  obtain ⟨⟨id, effect⟩, heffect, heq⟩ := Option.map_eq_some_iff.1 hrow
  obtain ⟨rfl, rfl⟩ := Prod.mk.inj heq
  obtain ⟨hget, hsame⟩ := Table.find?_some heffect
  obtain ⟨hsource, hkey⟩ := of_decide_eq_true hsame
  exact ⟨effect, hget, hsource, hkey, rfl⟩

/-- A key that nothing is read for is not stored. -/
theorem not_stored_of_effectRow {uid key : String} {ref : ManagedResourceRef}
    {resource : ManagedResourceRow}
    (hfind : s.db.resources.find? (fun _ row => row.uid = uid) = some (ref, resource))
    (hrow : s.getEffect sha256 uid key = none) (state : EffectRecord.State) :
    ¬ Stored sha256 s ref key state := by
  rintro ⟨id, effect, heffect, hsource, hkey, -⟩
  rw [getEffect, Option.map_eq_none_iff, effectRow_of_find hfind, Option.map_eq_none_iff] at hrow
  exact of_decide_eq_false (Table.find?_none.1 hrow id effect heffect) ⟨hsource, hkey⟩

/-- A new effect is stored as pending. -/
theorem stored_create {options : ReserveOptions} {sourceResourceId : String} {revision : Nat}
    (h : s.createEffect sha256 options sourceResourceId revision = .ok s')
    {state : EffectRecord.State} (hstate : state ≠ .pending) (ref : ManagedResourceRef)
    (key : String) : Stored sha256 s' ref key state ↔ Stored sha256 s ref key state := by
  obtain ⟨-, hproject, -, hfree, hget⟩ := createEffect_ok h
  rw [Stored, Stored, resourceIdOf, hproject, resourceIdOf]
  refine exists_congr fun id => exists_congr fun effect => and_congr_left fun hrest => ?_
  rw [hget]
  split
  · next hid =>
      subst hid
      rw [hfree]
      refine iff_of_false ?_ (by rintro ⟨⟩)
      rintro ⟨⟩
      exact hstate hrest.2.2.symm
  · exact Iff.rfl

theorem settled_create {options : ReserveOptions} {sourceResourceId : String} {revision : Nat}
    (h : s.createEffect sha256 options sourceResourceId revision = .ok s')
    (ref : ManagedResourceRef) (key : String) : Settled sha256 s' ref key ↔ Settled sha256 s ref key :=
  or_congr (stored_create h (by decide) ref key) (stored_create h (by decide) ref key)

/-- An update is of one effect, which no other name and key have. -/
theorem stored_update {options : UpdateOptions} {record : EffectRecord} (hs : Placed sha256 s)
    (h : s.updateEffect sha256 options = .ok (record, s')) {ref : ManagedResourceRef} {key : String}
    (hlease : (s.db.leases.get? ref).isSome = true)
    (hother : ¬ (ref = options.claim.ref ∧ key = options.key)) (state : EffectRecord.State) :
    Stored sha256 s' ref key state ↔ Stored sha256 s ref key state := by
  obtain ⟨_, source, effectId, old, hfind, hclaim, hrow, rfl, -⟩ := updateEffect_ok h
  obtain ⟨rfl, htarget, -⟩ := claim_ok hclaim
  obtain ⟨effect, heffect, hsource, hkey, -⟩ := effectRow_stored hfind hrow
  have hne : ∀ id row, s.effects.get? id = some row →
      row.sourceResourceId = s.resourceIdOf sha256 ref → row.idempotencyKey = key →
        id ≠ effectId := by
    rintro id row hget hsource' hkey' rfl
    obtain rfl := Option.some.inj (heffect.symm.trans hget)
    exact hother ⟨hs.refs _ _ hlease htarget (hsource'.symm.trans hsource), hkey'.symm.trans hkey⟩
  constructor
  · rintro ⟨id, row, hget, hrest⟩
    rw [Table.get?_update] at hget
    split at hget
    · obtain ⟨before, hbefore, rfl⟩ := Option.map_eq_some_iff.1 hget
      next hid => exact absurd hid (hne id before hbefore hrest.1 hrest.2.1)
    · exact ⟨id, row, hget, hrest⟩
  · rintro ⟨id, row, hget, hrest⟩
    refine ⟨id, row, ?_, hrest⟩
    rw [Table.get?_update_ne (hne id row hget hrest.1 hrest.2.1)]
    exact hget

end ManagedStore

/-- The pass may still settle its effect. -/
def EnsureStage.IsOpen : EnsureStage → Prop
  | .observing | .observed _ | .ready | .applying | .answered _ => True
  | .recording _ _ | .ended _ => False

namespace EnsureState

open ManagedStore (Addressed Placed Stored Settled)

variable {sha256 : String → String} {s s' : EnsureState} {store store' : ManagedStore}

/-! ## What one step does -/

variable (sha256) in
/-- Nothing happens to the effects. -/
structure Quiet (store store' : ManagedStore) : Prop where
  step : store' = store ∨ ∃ action, store.step sha256 action = .ok store'
  effects : store'.effects = store.effects

theorem Quiet.refl (store : ManagedStore) : Quiet sha256 store store :=
  ⟨.inl rfl, rfl⟩

variable (sha256) in
/-- The pass settles its effect. -/
def Updates (store : ManagedStore) (pass : EnsurePass) (store' : ManagedStore) : Prop :=
  ∃ options record, store.updateEffect sha256 options = .ok (record, store') ∧
    options.resourceUid = pass.resource.uid ∧ options.key = pass.definition.key ∧
    options.claim = pass.claim

theorem settle_ok {pass : EnsurePass} {state : EffectRecord.State} {externalRef error : Option String}
    {type : String} {now : Int} {stage : EnsureStage}
    (h : settle sha256 store pass state externalRef error type now = (stage, store')) :
    ¬ stage.IsOpen ∧ (store' = store ∨ Updates sha256 store pass store') := by
  unfold settle at h
  split at h
  · next record updated hupdate =>
      obtain ⟨rfl, rfl⟩ := Prod.mk.inj h
      exact ⟨id, .inr ⟨_, record, hupdate, rfl, rfl, rfl⟩⟩
  · obtain ⟨rfl, rfl⟩ := Prod.mk.inj h
    exact ⟨id, .inl rfl⟩

variable (sha256) in
/-- What a pass does next: it asks, hears and goes on, or it is done with the effect,
with or without having settled it. -/
inductive Moves (store : ManagedStore) (pass : EnsurePass) :
    Action → EnsureStage → ManagedStore → Prop
  | observed {key : PassKey} {answer : Except String EffectObservation}
      (hstage : pass.stage = .observing) : Moves store pass (.observe key answer) (.observed answer) store
  | absent {key : PassKey} {now : Int} (hstage : pass.stage = .observed (.ok .not_applied)) :
      Moves store pass (.settleObservation key now) .ready store
  | applying {key : PassKey} (hstage : pass.stage = .ready) :
      Moves store pass (.apply key) .applying store
  | answered {key : PassKey} {answer : Except String EffectApplication}
      (hstage : pass.stage = .applying) : Moves store pass (.answer key answer) (.answered answer) store
  | done {action : Action} {stage : EnsureStage} {store' : ManagedStore}
      (hclosed : ¬ stage.IsOpen) (hquiet : Quiet sha256 store store') :
      Moves store pass action stage store'
  | settled {action : Action} {stage : EnsureStage} {store' : ManagedStore}
      (hopen : pass.stage.IsOpen) (hclosed : ¬ stage.IsOpen)
      (hupdates : Updates sha256 store pass store') : Moves store pass action stage store'

theorem settle_moves {pass : EnsurePass} {action : Action} {state : EffectRecord.State}
    {externalRef error : Option String} {type : String} {now : Int} {stage : EnsureStage}
    (hopen : pass.stage.IsOpen)
    (h : settle sha256 store pass state externalRef error type now = (stage, store')) :
    Moves sha256 store pass action stage store' := by
  obtain ⟨hclosed, rfl | hupdates⟩ := settle_ok h
  · exact .done hclosed (.refl _)
  · exact .settled hopen hclosed hupdates

theorem proceed_moves {pass : EnsurePass} {action : Action} {stage : EnsureStage}
    (h : proceed sha256 store pass action = some (stage, store')) :
    Moves sha256 store pass action stage store' := by
  unfold proceed at h
  split at h
  · split at h
    · next hstage =>
        obtain ⟨rfl, rfl⟩ := Prod.mk.inj (Option.some.inj h)
        exact .observed hstage
    · cases h
  · split at h
    · next answer hstage =>
        have hopen : pass.stage.IsOpen := hstage ▸ trivial
        have happly := Option.some.inj h
        unfold applyObservation at happly
        split at happly
        · obtain ⟨rfl, rfl⟩ := Prod.mk.inj happly
          exact .done id (.refl _)
        · obtain ⟨rfl, rfl⟩ := Prod.mk.inj happly
          exact .absent hstage
        · exact settle_moves hopen happly
        · exact settle_moves hopen happly
    · cases h
  · split at h
    · next hstage =>
        obtain ⟨rfl, rfl⟩ := Prod.mk.inj (Option.some.inj h)
        exact .applying hstage
    · cases h
  · split at h
    · next hstage =>
        obtain ⟨rfl, rfl⟩ := Prod.mk.inj (Option.some.inj h)
        exact .answered hstage
    · cases h
  · split at h
    · next answer hstage =>
        have hopen : pass.stage.IsOpen := hstage ▸ trivial
        have happly := Option.some.inj h
        unfold applyAnswer at happly
        split at happly <;> exact settle_moves hopen happly
    · cases h
  · split at h
    · next now _ type result hstage =>
        have hrecord := Option.some.inj h
        unfold recordEvent at hrecord
        split at hrecord
        · next recorded hok =>
            obtain ⟨rfl, rfl⟩ := Prod.mk.inj hrecord
            have hstep : store.step sha256 (.recordEvent pass.resource.ref (some pass.claim) now) =
                .ok recorded := hok
            exact .done id ⟨.inr ⟨_, hstep⟩, by rw [ManagedStore.recordEvent_ok hok]⟩
        · obtain ⟨rfl, rfl⟩ := Prod.mk.inj hrecord
          exact .done id (.refl _)
    · cases h
  · cases h
  · cases h
  · cases h

/-- A pass goes on without touching the effects, or settles its own. -/
theorem Moves.cases {pass : EnsurePass} {action : Action} {stage : EnsureStage}
    (h : Moves sha256 store pass action stage store') :
    Quiet sha256 store store' ∧ (stage.IsOpen → pass.stage.IsOpen) ∨
      pass.stage.IsOpen ∧ ¬ stage.IsOpen ∧ Updates sha256 store pass store' := by
  cases h with
  | observed hstage => exact .inl ⟨.refl _, fun _ => hstage ▸ trivial⟩
  | absent hstage => exact .inl ⟨.refl _, fun _ => hstage ▸ trivial⟩
  | applying hstage => exact .inl ⟨.refl _, fun _ => hstage ▸ trivial⟩
  | answered hstage => exact .inl ⟨.refl _, fun _ => hstage ▸ trivial⟩
  | done hclosed hquiet => exact .inl ⟨hquiet, fun hopen => absurd hopen hclosed⟩
  | settled hopen hclosed hupdates => exact .inr ⟨hopen, hclosed, hupdates⟩

variable (sha256) in
/-- What an accepted action does. -/
inductive Performs (s : EnsureState) : Action → EnsureState → Prop
  | other {action : ManagedStore.Action} {store : ManagedStore}
      (hquiet : Quiet sha256 s.store store) : Performs s (.other action) ⟨store, s.passes⟩
  | ensure {resource : ResourceMetadata} {claim : ResourceClaim} {definition : EffectDefinition}
      {now : Int} {stage : EnsureStage} {store : ManagedStore} {passes : Table PassKey EnsurePass}
      (hreserve : reserve sha256 s.store resource claim definition now = (stage, store))
      (hinsert : s.passes.insert? claim.passKey ⟨resource, claim, definition, stage⟩ = some passes) :
      Performs s (.ensure resource claim definition now) ⟨store, passes⟩
  | advance {key : PassKey} {action : Action} {pass : EnsurePass} {stage : EnsureStage}
      {store : ManagedStore} (hpass : s.passes.get? key = some pass)
      (hmoves : Moves sha256 s.store pass action stage store)
      (hkey : ∀ other answer, action = .observe other answer → other = key)
      (hdrop : ∀ other, action ≠ .drop other) :
      Performs s action ⟨store, s.passes.update key fun pass => { pass with stage }⟩
  | drop (key : PassKey) : Performs s (.drop key) ⟨s.store, s.passes.erase key⟩

theorem advance_ok {key : PassKey} {action : Action} (h : s.advance sha256 key action = .ok s')
    (hkey : ∀ other answer, action = .observe other answer → other = key)
    (hdrop : ∀ other, action ≠ .drop other) : Performs sha256 s action s' := by
  simp only [advance, bind_ok, orThrow_ok, pure_ok, Prod.exists] at h
  obtain ⟨pass, hpass, stage, store, hproceed, rfl⟩ := h
  exact .advance hpass (proceed_moves hproceed) hkey hdrop

theorem step_ok {action : Action} (h : s.step sha256 action = .ok s') :
    Performs sha256 s action s' := by
  cases action with
  | other action =>
      simp only [step, otherCall] at h
      split at h
      · cases h
      · cases h
      · next hreserve hupdate =>
          obtain ⟨store, hstep, rfl⟩ := map_ok.1 h
          exact .other ⟨.inr ⟨action, hstep⟩, ManagedStore.effects_kept hstep hreserve hupdate⟩
  | ensure resource claim definition now =>
      simp only [step, EnsureState.ensure, bind_ok, orThrow_ok, pure_ok] at h
      obtain ⟨passes, hinsert, rfl⟩ := h
      exact .ensure rfl hinsert
  | drop key =>
      obtain rfl := Except.ok.inj h
      exact .drop key
  | observe key answer =>
      refine advance_ok h ?_ (fun _ heq => by cases heq)
      rintro other answer' heq
      exact (Action.observe.inj heq).1.symm
  | settleObservation key now => exact advance_ok h (fun _ _ heq => by cases heq) (fun _ heq => by cases heq)
  | apply key => exact advance_ok h (fun _ _ heq => by cases heq) (fun _ heq => by cases heq)
  | answer key answer => exact advance_ok h (fun _ _ heq => by cases heq) (fun _ heq => by cases heq)
  | settleAnswer key now => exact advance_ok h (fun _ _ heq => by cases heq) (fun _ heq => by cases heq)
  | record key now => exact advance_ok h (fun _ _ heq => by cases heq) (fun _ heq => by cases heq)

/-- A call that goes on after its reservation has the claim and an open effect, which
it has just reserved or goes on to observe. -/
theorem reserve_ok {resource : ResourceMetadata} {claim : ResourceClaim}
    {definition : EffectDefinition} {now : Int} {stage : EnsureStage}
    (haddressed : Addressed sha256 store)
    (h : reserve sha256 store resource claim definition now = (stage, store')) :
    (store' = store ∨ ∃ action, store.step sha256 action = .ok store') ∧ store'.db = store.db ∧
      (∀ ref key, Settled sha256 store' ref key ↔ Settled sha256 store ref key) ∧
      (stage.IsOpen → (store.db.leases.get? claim.ref).isSome = true ∧
        (store.db.cell claim.ref).generation = claim.generation ∧
        ¬ Settled sha256 store claim.ref definition.key ∧
        (stage = .observing ∨
          stage = .ready ∧ ∀ state, ¬ Stored sha256 store claim.ref definition.key state)) := by
  unfold reserve at h
  split at h
  · obtain ⟨rfl, rfl⟩ := Prod.mk.inj h
    exact ⟨.inl rfl, rfl, fun _ _ => Iff.rfl, fun hopen => absurd hopen id⟩
  · next record created reserved hreserve =>
      have hstep : ∃ action, store.step sha256 action = .ok reserved :=
        ⟨.reserveEffect _, by rw [ManagedStore.step, hreserve]; rfl⟩
      obtain ⟨_, source, hfind, hclaim, hcases⟩ := ManagedStore.reserveEffect_ok hreserve
      obtain ⟨rfl, hlease, hgeneration⟩ := ManagedStore.claim_ok hclaim
      have hstore : store' = reserved := by
        split at h
        · exact (Prod.mk.inj h).2.symm
        · split at h <;> exact (Prod.mk.inj h).2.symm
      subst hstore
      rcases hcases with ⟨rfl, rfl, hget, -⟩ | ⟨rfl, hnone, hcreate, -⟩
      · refine ⟨.inl rfl, rfl, fun _ _ => Iff.rfl, fun hopen => ?_⟩
        split at h
        · obtain ⟨rfl, -⟩ := Prod.mk.inj h
          exact absurd hopen id
        · next hunsettled =>
            obtain ⟨rfl, -⟩ := Prod.mk.inj h
            obtain ⟨⟨effectId, _⟩, hrow, rfl⟩ := Option.map_eq_some_iff.1 hget
            obtain ⟨effect, heffect, hsource, hkey, hstatus⟩ :=
              ManagedStore.effectRow_stored hfind hrow
            have hstored : Stored sha256 store' claim.ref definition.key _ :=
              ⟨effectId, effect, heffect, hsource, hkey, hstatus⟩
            refine ⟨hlease, hgeneration, ?_, .inl rfl⟩
            rintro (happlied | hrejected)
            · exact hunsettled (.inl (haddressed.stored_unique hstored happlied))
            · exact hunsettled (.inr (haddressed.stored_unique hstored hrejected))
      · have hfree := ManagedStore.not_stored_of_effectRow hfind hnone
        refine ⟨.inr hstep, (ManagedStore.createEffect_ok hcreate).1,
          ManagedStore.settled_create hcreate, fun hopen => ⟨hlease, hgeneration, ?_, ?_⟩⟩
        · rintro (happlied | hrejected)
          · exact hfree _ happlied
          · exact hfree _ hrejected
        · split at h
          · obtain ⟨rfl, -⟩ := Prod.mk.inj h
            exact absurd hopen id
          · obtain ⟨rfl, -⟩ := Prod.mk.inj h
            exact .inr ⟨rfl, hfree⟩

/-- A pass that settles its effect has a good claim, and settles no other effect. -/
theorem updates_ok {pass : EnsurePass} (hplaced : Placed sha256 store)
    (h : Updates sha256 store pass store') :
    (∃ action, store.step sha256 action = .ok store') ∧ store'.db = store.db ∧
      (store.db.cell pass.claim.ref).generation = pass.claim.generation ∧
      ∀ ref key, (store.db.leases.get? ref).isSome = true →
        ¬ (ref = pass.claim.ref ∧ key = pass.definition.key) →
          (Settled sha256 store' ref key ↔ Settled sha256 store ref key) := by
  obtain ⟨options, record, hupdate, -, hkey, hclaim⟩ := h
  refine ⟨⟨.updateEffect options, by rw [ManagedStore.step, hupdate]; rfl⟩, ?_, ?_, ?_⟩
  · obtain ⟨_, _, _, _, -, -, -, rfl, -⟩ := ManagedStore.updateEffect_ok hupdate
    rfl
  · obtain ⟨_, _, _, _, -, hcurrent, -⟩ := ManagedStore.updateEffect_ok hupdate
    rw [← hclaim]
    exact (ManagedStore.claim_ok hcurrent).2.2
  · intro ref key hlease hother
    rw [← hclaim, ← hkey] at hother
    exact or_congr (ManagedStore.stored_update hplaced hupdate hlease hother _)
      (ManagedStore.stored_update hplaced hupdate hlease hother _)

/-! ## Effects as latches -/

variable (sha256) in
/-- The effect of a key, with the open passes for it. -/
def latch (s : EnsureState) (ref : ManagedResourceRef) (key : String) : Latch.Cell where
  generation := (s.store.db.cell ref).generation
  shut := Settled sha256 s.store ref key
  parties := fun generation => ∃ pass, s.passes.get? ⟨ref, generation⟩ = some pass ∧
    pass.definition.key = key ∧ pass.stage.IsOpen

variable (sha256) in
structure EnsureInv (s : EnsureState) : Prop where
  addressed : Addressed sha256 s.store
  placed : Placed sha256 s.store
  keyed : ∀ key pass, s.passes.get? key = some pass → pass.claim.passKey = key
  known : ∀ key pass, s.passes.get? key = some pass → pass.stage.IsOpen →
    (s.store.db.leases.get? key.ref).isSome = true

/-- Nothing about the effect has changed but who may still settle it. -/
theorem latch_wait {ref : ManagedResourceRef} {key : String}
    (hgeneration : (s.store.db.cell ref).generation ≤ (s'.store.db.cell ref).generation)
    (hsettled : Settled sha256 s'.store ref key ↔ Settled sha256 s.store ref key)
    (hparties : ∀ generation pass', s'.passes.get? ⟨ref, generation⟩ = some pass' →
      pass'.definition.key = key → pass'.stage.IsOpen →
        ∃ pass, s.passes.get? ⟨ref, generation⟩ = some pass ∧ pass.definition.key = key ∧
          pass.stage.IsOpen) :
    Latch.Step (s.latch sha256 ref key) (s'.latch sha256 ref key) := by
  have hcell : s'.latch sha256 ref key = ⟨(s'.store.db.cell ref).generation,
      (s.latch sha256 ref key).shut, (s'.latch sha256 ref key).parties⟩ := by
    show Latch.Cell.mk _ _ _ = _
    rw [propext hsettled]
    rfl
  rw [hcell]
  refine .wait _ _ hgeneration ?_
  rintro generation ⟨pass', hpass', hkey, hopen⟩
  exact hparties generation pass' hpass' hkey hopen

theorem Quiet.generation_le (h : Quiet sha256 store store') (ref : ManagedResourceRef) :
    (store.db.cell ref).generation ≤ (store'.db.cell ref).generation := by
  rcases h.step with rfl | ⟨call, hcall⟩
  · exact Nat.le_refl _
  · exact ManagedStore.generation_le hcall ref

theorem Quiet.settled (h : Quiet sha256 store store') (ref : ManagedResourceRef) (key : String) :
    Settled sha256 store' ref key ↔ Settled sha256 store ref key := by
  rcases h.step with rfl | ⟨call, hcall⟩
  · exact Iff.rfl
  · have hproject := (ManagedStore.step_ok hcall).2.projectId
    exact or_congr (ManagedStore.stored_congr hproject h.effects key _)
      (ManagedStore.stored_congr hproject h.effects key _)

/-- The open passes after one of them has moved. -/
theorem open_update {k key : PassKey} {pass pass' : EnsurePass} {stage : EnsureStage}
    (hpass : s.passes.get? k = some pass)
    (hpass' : (s.passes.update k fun pass => { pass with stage }).get? key = some pass') :
    key = k ∧ pass' = { pass with stage } ∨ key ≠ k ∧ s.passes.get? key = some pass' := by
  rw [Table.get?_update_of_some hpass] at hpass'
  split at hpass'
  · next heq => exact .inl ⟨heq, (Option.some.inj hpass').symm⟩
  · next hne => exact .inr ⟨hne, hpass'⟩

/-- Every action is a step of every effect of a name with a lease. -/
theorem step_latch {action : Action} (hs : EnsureInv sha256 s) (h : s.step sha256 action = .ok s')
    {ref : ManagedResourceRef} (hlease : (s.store.db.leases.get? ref).isSome = true) (key : String) :
    Latch.Step (s.latch sha256 ref key) (s'.latch sha256 ref key) := by
  cases step_ok h with
  | @other action store hquiet =>
      exact latch_wait (hquiet.generation_le ref) (hquiet.settled ref key)
        fun generation pass hpass hkey hopen => ⟨pass, hpass, hkey, hopen⟩
  | @ensure resource claim definition now stage store passes hreserve hinsert =>
      obtain ⟨-, hdb, hsettled, hopens⟩ := reserve_ok hs.addressed hreserve
      have hget : ∀ k, passes.get? k = if k = ⟨claim.ref, claim.generation⟩ then
          some ⟨resource, claim, definition, stage⟩ else s.passes.get? k :=
        (Table.get?_of_insert? hinsert).2
      by_cases henter : stage.IsOpen ∧ claim.ref = ref ∧ definition.key = key
      · obtain ⟨hopen, rfl, rfl⟩ := henter
        obtain ⟨-, hgeneration, hunsettled, -⟩ := hopens hopen
        have hparties : (EnsureState.latch sha256 ⟨store, passes⟩ claim.ref
            definition.key).parties = insert claim.generation
              (s.latch sha256 claim.ref definition.key).parties := by
          ext generation
          rw [Set.mem_insert_iff]
          show (∃ pass, passes.get? ⟨claim.ref, generation⟩ = some pass ∧ _) ↔ _
          rw [hget]
          by_cases hnew : generation = claim.generation
          · subst hnew
            rw [if_pos rfl]
            exact iff_of_true ⟨_, rfl, rfl, hopen⟩ (.inl rfl)
          · rw [if_neg fun heq => hnew (PassKey.mk.inj heq).2]
            exact (or_iff_right hnew).symm
        have hcell : EnsureState.latch sha256 ⟨store, passes⟩ claim.ref definition.key =
            ⟨(s.latch sha256 claim.ref definition.key).generation,
              (s.latch sha256 claim.ref definition.key).shut,
              insert (s.latch sha256 claim.ref definition.key).generation
                (s.latch sha256 claim.ref definition.key).parties⟩ := by
          have hnow : (s.latch sha256 claim.ref definition.key).generation = claim.generation :=
            hgeneration
          rw [hnow, ← hparties, ← hgeneration, ← hdb]
          show Latch.Cell.mk _ _ _ = _
          rw [propext (hsettled claim.ref definition.key)]
          rfl
        rw [hcell]
        exact .enter hunsettled
      · refine latch_wait (Nat.le_of_eq (by rw [hdb])) (hsettled ref key) ?_
        intro generation pass' hpass' hkey hopen
        rw [hget] at hpass'
        split at hpass'
        · next heq =>
            obtain rfl := Option.some.inj hpass'
            exact absurd ⟨hopen, (PassKey.mk.inj heq).1.symm, hkey⟩ henter
        · exact ⟨pass', hpass', hkey, hopen⟩
  | @advance k action pass stage store hpass hmoves _ _ =>
      rcases hmoves.cases with ⟨hquiet, hstays⟩ | ⟨hopen, hclosed, hupdates⟩
      · refine latch_wait (hquiet.generation_le ref) (hquiet.settled ref key) ?_
        intro generation pass' hpass' hkey hopen
        rcases open_update hpass hpass' with ⟨heq, rfl⟩ | ⟨-, hsame⟩
        · exact ⟨pass, heq ▸ hpass, hkey, hstays hopen⟩
        · exact ⟨pass', hsame, hkey, hopen⟩
      · obtain ⟨-, hdb, hgeneration, hothers⟩ := updates_ok hs.placed hupdates
        by_cases hmine : ref = pass.claim.ref ∧ key = pass.definition.key
        · obtain ⟨rfl, rfl⟩ := hmine
          obtain rfl : pass.claim.passKey = k := hs.keyed k pass hpass
          have hnow : (s.latch sha256 pass.claim.ref pass.definition.key).generation =
              pass.claim.generation := hgeneration
          have hparties : (EnsureState.latch sha256 ⟨store, s.passes.update pass.claim.passKey
              fun pass => { pass with stage }⟩ pass.claim.ref pass.definition.key).parties =
                (s.latch sha256 pass.claim.ref pass.definition.key).parties \
                  {pass.claim.generation} := by
            ext generation
            constructor
            · rintro ⟨pass', hpass', hkey, hopen'⟩
              rcases open_update hpass hpass' with ⟨-, rfl⟩ | ⟨hne, hsame⟩
              · exact absurd hopen' hclosed
              · exact ⟨⟨pass', hsame, hkey, hopen'⟩, fun heq => hne (by rw [heq]; rfl)⟩
            · rintro ⟨⟨pass', hpass', hkey, hopen'⟩, hne⟩
              refine ⟨pass', ?_, hkey, hopen'⟩
              rw [Table.get?_update_ne]
              · exact hpass'
              · exact fun heq => hne (PassKey.mk.inj heq).2
          have hcell : EnsureState.latch sha256 ⟨store, s.passes.update pass.claim.passKey
              fun pass => { pass with stage }⟩ pass.claim.ref pass.definition.key =
                ⟨(s.latch sha256 pass.claim.ref pass.definition.key).generation,
                  Settled sha256 store pass.claim.ref pass.definition.key,
                  (s.latch sha256 pass.claim.ref pass.definition.key).parties \
                    {(s.latch sha256 pass.claim.ref pass.definition.key).generation}⟩ := by
            rw [hnow, ← hparties, ← hgeneration, ← hdb]
            rfl
          rw [hcell]
          refine .change _ ?_
          rw [hnow]
          exact ⟨pass, hpass, rfl, hopen⟩
        · refine latch_wait (Nat.le_of_eq (by rw [hdb])) (hothers ref key hlease hmine) ?_
          intro generation pass' hpass' hkey hopen'
          rcases open_update hpass hpass' with ⟨-, rfl⟩ | ⟨-, hsame⟩
          · exact absurd hopen' hclosed
          · exact ⟨pass', hsame, hkey, hopen'⟩
  | drop k =>
      refine latch_wait (Nat.le_refl _) Iff.rfl fun generation pass' hpass' hkey hopen => ?_
      rw [Table.get?_erase] at hpass'
      split at hpass'
      · cases hpass'
      · exact ⟨pass', hpass', hkey, hopen⟩

/-! ## Every run -/

theorem store_step {action : Action} (hs : EnsureInv sha256 s) (h : s.step sha256 action = .ok s') :
    s'.store = s.store ∨ ∃ call, s.store.step sha256 call = .ok s'.store := by
  cases step_ok h with
  | other hquiet => exact hquiet.step
  | ensure hreserve _ => exact (reserve_ok hs.addressed hreserve).1
  | advance hpass hmoves _ _ =>
      rcases hmoves.cases with ⟨hquiet, -⟩ | ⟨-, -, hupdates⟩
      · exact hquiet.step
      · exact .inr (updates_ok hs.placed hupdates).1
  | drop key => exact .inl rfl

/-- A pass that is open after a step has a name that had a lease before it. -/
theorem open_before {action : Action} (hs : EnsureInv sha256 s) (h : s.step sha256 action = .ok s')
    {key : PassKey} {pass' : EnsurePass} (hpass' : s'.passes.get? key = some pass')
    (hopen : pass'.stage.IsOpen) : (s.store.db.leases.get? key.ref).isSome = true := by
  cases step_ok h with
  | other _ => exact hs.known key pass' hpass' hopen
  | ensure hreserve hinsert =>
      rw [(Table.get?_of_insert? hinsert).2] at hpass'
      split at hpass'
      · next heq =>
          obtain rfl := Option.some.inj hpass'
          rw [heq]
          exact ((reserve_ok hs.addressed hreserve).2.2.2 hopen).1
      · exact hs.known key pass' hpass' hopen
  | advance hpass hmoves _ _ =>
      rcases open_update hpass hpass' with ⟨rfl, rfl⟩ | ⟨-, hsame⟩
      · rcases hmoves.cases with ⟨-, hstays⟩ | ⟨-, hclosed, -⟩
        · exact hs.known key _ hpass (hstays hopen)
        · exact absurd hopen hclosed
      · exact hs.known key pass' hsame hopen
  | drop k =>
      rw [Table.get?_erase] at hpass'
      split at hpass'
      · cases hpass'
      · exact hs.known key pass' hpass' hopen

theorem lease_step {action : Action} (hs : EnsureInv sha256 s) (h : s.step sha256 action = .ok s')
    {ref : ManagedResourceRef} (hlease : (s.store.db.leases.get? ref).isSome = true) :
    (s'.store.db.leases.get? ref).isSome = true := by
  rcases store_step hs h with heq | ⟨call, hcall⟩
  · rw [heq]
    exact hlease
  · exact ManagedStore.leases_kept hcall hlease

theorem ensureInv_fresh (projectId : String) : EnsureInv sha256 (fresh projectId) := by
  refine ⟨⟨fun _ _ _ _ h => ?_, fun _ _ h => ?_⟩, ManagedStore.placed_empty projectId,
    fun _ _ h => ?_, fun _ _ h => ?_⟩ <;> cases h

theorem ensureInv_step {action : Action} (hs : EnsureInv sha256 s)
    (h : s.step sha256 action = .ok s') : EnsureInv sha256 s' := by
  have hkeyed : ∀ key pass, s'.passes.get? key = some pass → pass.claim.passKey = key := by
    intro key pass' hpass'
    cases step_ok h with
    | other _ => exact hs.keyed key pass' hpass'
    | ensure _ hinsert =>
        rw [(Table.get?_of_insert? hinsert).2] at hpass'
        split at hpass'
        · next heq =>
            obtain rfl := Option.some.inj hpass'
            exact heq.symm
        · exact hs.keyed key pass' hpass'
    | advance hpass _ _ _ =>
        rcases open_update hpass hpass' with ⟨rfl, rfl⟩ | ⟨-, hsame⟩
        · have hkey := hs.keyed _ _ hpass
          exact hkey
        · exact hs.keyed key pass' hsame
    | drop k =>
        rw [Table.get?_erase] at hpass'
        split at hpass'
        · cases hpass'
        · exact hs.keyed key pass' hpass'
  have hstore : Addressed sha256 s'.store ∧ Placed sha256 s'.store := by
    rcases store_step hs h with heq | ⟨call, hcall⟩
    · rw [heq]
      exact ⟨hs.addressed, hs.placed⟩
    · exact ⟨ManagedStore.addressed_step hs.addressed hcall,
        ManagedStore.placed_step hs.placed hcall⟩
  exact ⟨hstore.1, hstore.2, hkeyed, fun key pass' hpass' hopen =>
    lease_step hs h (open_before hs h hpass' hopen)⟩

variable (sha256) in
/-- The invariant of all runs. -/
structure Latched (s : EnsureState) : Prop extends EnsureInv sha256 s where
  sound : ∀ ref key, (s.store.db.leases.get? ref).isSome = true →
    Latch.Sound (s.latch sha256 ref key)

theorem latched_step {action : Action} (hs : Latched sha256 s) (h : s.step sha256 action = .ok s') :
    Latched sha256 s' := by
  refine ⟨ensureInv_step hs.toEnsureInv h, fun ref key _ => ?_⟩
  by_cases hlease : (s.store.db.leases.get? ref).isSome = true
  · exact (step_latch hs.toEnsureInv h hlease key).sound (hs.sound ref key hlease)
  · -- A name that has just got its lease has no open passes.
    have hempty : ∀ party, party ∉ (s'.latch sha256 ref key).parties := by
      rintro party ⟨pass', hpass', -, hopen⟩
      exact hlease (open_before hs.toEnsureInv h hpass' hopen)
    exact ⟨fun party hparty => absurd hparty (hempty party),
      fun _ party hparty => absurd hparty (hempty party)⟩

theorem latched_fresh (projectId : String) : Latched sha256 (fresh projectId) :=
  ⟨ensureInv_fresh projectId, fun _ _ h => nomatch h⟩

/-- A settled effect of a name with a lease stays settled. -/
theorem settled_step {action : Action} (hs : Latched sha256 s) (h : s.step sha256 action = .ok s')
    {ref : ManagedResourceRef} {key : String}
    (hlease : (s.store.db.leases.get? ref).isSome = true)
    (hsettled : Settled sha256 s.store ref key) : Settled sha256 s'.store ref key :=
  (step_latch hs.toEnsureInv h hlease key).shut (hs.sound ref key hlease) hsettled

theorem settled_accepted {actions : List Action} (hs : Latched sha256 s)
    (h : Trace.accepted (step sha256) s actions = .ok s') {ref : ManagedResourceRef} {key : String}
    (hlease : (s.store.db.leases.get? ref).isSome = true)
    (hsettled : Settled sha256 s.store ref key) : Settled sha256 s'.store ref key :=
  (Trace.accepted_invariant (P := fun t => Latched sha256 t ∧
      (t.store.db.leases.get? ref).isSome = true ∧ Settled sha256 t.store ref key)
    (fun _ _ _ ⟨ht, hl, hshut⟩ hstep => ⟨latched_step ht hstep, lease_step ht.toEnsureInv hstep hl,
      settled_step ht hstep hl hshut⟩) ⟨hs, hlease, hsettled⟩ h).2.2

/-- A name with an effect has the lease, if it will ever have one. -/
theorem lease_of_settled {actions : List Action} (hs : Latched sha256 s)
    (h : Trace.accepted (step sha256) s actions = .ok s') {ref : ManagedResourceRef} {key : String}
    (hsettled : Settled sha256 s.store ref key)
    (hlease : (s'.store.db.leases.get? ref).isSome = true) :
    (s.store.db.leases.get? ref).isSome = true := by
  have hsource : ∃ id effect, s.store.effects.get? id = some effect ∧
      effect.sourceResourceId = s.store.resourceIdOf sha256 ref := by
    rcases hsettled with ⟨id, effect, heffect, hsource, -⟩ | ⟨id, effect, heffect, hsource, -⟩
    · exact ⟨id, effect, heffect, hsource⟩
    · exact ⟨id, effect, heffect, hsource⟩
  obtain ⟨id, effect, heffect, hsource⟩ := hsource
  obtain ⟨ref', hlease', hsource'⟩ := hs.placed.sources id effect heffect
  obtain ⟨hs', hkept, hid⟩ := Trace.accepted_invariant (P := fun t => Latched sha256 t ∧
      (t.store.db.leases.get? ref').isSome = true ∧
        t.store.resourceIdOf sha256 ref = t.store.resourceIdOf sha256 ref')
    (fun t _ t' ⟨ht, hl, heq⟩ hstep => ⟨latched_step ht hstep, lease_step ht.toEnsureInv hstep hl, by
      rcases store_step ht.toEnsureInv hstep with hsame | ⟨call, hcall⟩
      · rw [hsame, heq]
      · have hgrows := (ManagedStore.step_ok hcall).2
        rw [hgrows.resourceIdOf, hgrows.resourceIdOf, heq]⟩)
    ⟨hs, hlease', hsource.symm.trans hsource'⟩ h
  rw [hs'.placed.refs ref ref' hlease hkept hid]
  exact hlease'

/-! ## How a pass has got to where it is -/

variable (sha256) in
/-- The call of the pass, and what it has seen on the way: the effect was open when it
was reserved, and before it is applied it was new then or observed as not applied. -/
def Began (projectId : String) (actions : List Action) (key : PassKey) (pass : EnsurePass) : Prop :=
  ∃ before resource claim definition now after t,
    actions = before ++ .ensure resource claim definition now :: after ∧ claim.passKey = key ∧
      .drop key ∉ after ∧ run sha256 projectId before = .ok t ∧
      pass.claim = claim ∧ pass.definition = definition ∧
      (pass.stage.IsOpen → (t.store.db.leases.get? claim.ref).isSome = true ∧
        ¬ Settled sha256 t.store claim.ref definition.key) ∧
      (∀ answer, pass.stage = .observed answer → .observe key answer ∈ after) ∧
      (pass.stage = .ready → (∀ state, ¬ Stored sha256 t.store claim.ref definition.key state) ∨
        .observe key (.ok .not_applied) ∈ after)

variable {projectId : String} {actions : List Action}

theorem latched_run (h : run sha256 projectId actions = .ok s) : Latched sha256 s :=
  Trace.accepted_invariant (fun _ _ _ ht hstep => latched_step ht hstep) (latched_fresh projectId) h

theorem began_advance {key : PassKey} {action : Action} {pass : EnsurePass} {stage : EnsureStage}
    (hbegan : Began sha256 projectId actions key pass) (hdrop : action ≠ .drop key)
    (hopen : stage.IsOpen → pass.stage.IsOpen)
    (hobserved : ∀ answer, stage = .observed answer → action = .observe key answer)
    (hready : stage = .ready → pass.stage = .observed (.ok .not_applied)) :
    Began sha256 projectId (actions ++ [action]) key { pass with stage } := by
  obtain ⟨before, resource, claim, definition, now, after, t, rfl, hkey, hnodrop, hrun, hclaim,
    hdefinition, hfound, hanswer, -⟩ := hbegan
  refine ⟨before, resource, claim, definition, now, after ++ [action], t,
    by rw [List.append_assoc, List.cons_append], hkey, ?_, hrun, hclaim, hdefinition,
    fun h => hfound (hopen h), fun answer hstage => ?_, fun hstage => .inr ?_⟩
  · rw [List.mem_append, List.mem_singleton, not_or]
    exact ⟨hnodrop, fun heq => hdrop heq.symm⟩
  · rw [← hobserved answer hstage]
    exact List.mem_append_right _ (List.mem_singleton_self _)
  · exact List.mem_append_left _ (hanswer _ (hready hstage))

theorem began_keep {key : PassKey} {action : Action} {pass : EnsurePass}
    (hbegan : Began sha256 projectId actions key pass) (hdrop : action ≠ .drop key) :
    Began sha256 projectId (actions ++ [action]) key pass := by
  obtain ⟨before, resource, claim, definition, now, after, t, rfl, hkey, hnodrop, hrun, hclaim,
    hdefinition, hfound, hanswer, hready⟩ := hbegan
  refine ⟨before, resource, claim, definition, now, after ++ [action], t,
    by rw [List.append_assoc, List.cons_append], hkey, ?_, hrun, hclaim, hdefinition, hfound,
    fun answer hstage => List.mem_append_left _ (hanswer answer hstage),
    fun hstage => (hready hstage).imp_right (List.mem_append_left _)⟩
  rw [List.mem_append, List.mem_singleton, not_or]
  exact ⟨hnodrop, fun heq => hdrop heq.symm⟩

/-- Every pass has a call that it began with. -/
theorem began_run (h : run sha256 projectId actions = .ok s) :
    ∀ key pass, s.passes.get? key = some pass → Began sha256 projectId actions key pass := by
  induction actions using List.reverseRecOn generalizing s with
  | nil =>
      obtain rfl := Except.ok.inj h
      rintro key pass ⟨⟩
  | append_singleton actions action ih =>
      obtain ⟨mid, hmid, hstep⟩ := Trace.accepted_concat.1 h
      have hlatched := latched_run hmid
      intro key pass hpass
      cases step_ok hstep with
      | other _ => exact began_keep (ih hmid key pass hpass) (by rintro ⟨⟩)
      | @ensure resource claim definition now stage store passes hreserve hinsert =>
          rw [(Table.get?_of_insert? hinsert).2] at hpass
          split at hpass
          · next heq =>
              obtain rfl := Option.some.inj hpass
              obtain ⟨-, -, -, hopens⟩ := reserve_ok hlatched.addressed hreserve
              refine ⟨actions, resource, claim, definition, now, [], mid, rfl, heq.symm,
                List.not_mem_nil, hmid, rfl, rfl, fun hopen => ?_, fun answer hstage => ?_,
                fun hstage => ?_⟩
              · exact ⟨(hopens hopen).1, (hopens hopen).2.2.1⟩
              · obtain rfl : stage = .observed answer := hstage
                rcases (hopens trivial).2.2.2 with hobserving | ⟨hready, -⟩
                · cases hobserving
                · cases hready
              · obtain rfl : stage = .ready := hstage
                rcases (hopens trivial).2.2.2 with hobserving | ⟨-, hnew⟩
                · cases hobserving
                · exact .inl hnew
          · exact began_keep (ih hmid key pass hpass) (by rintro ⟨⟩)
      | @advance k action previous stage store hprevious hmoves hkey hdrop =>
          rcases open_update hprevious hpass with ⟨rfl, rfl⟩ | ⟨-, hsame⟩
          · refine began_advance (ih hmid key previous hprevious) (hdrop key) (fun hopen => ?_)
              (fun answer hstage => ?_) fun hstage => ?_
            · rcases hmoves.cases with ⟨-, hstays⟩ | ⟨-, hclosed, -⟩
              · exact hstays hopen
              · exact absurd hopen hclosed
            · cases hmoves with
              | observed _ =>
                  obtain rfl := hkey _ _ rfl
                  rw [EnsureStage.observed.inj hstage]
              | absent _ | applying _ | answered _ => cases hstage
              | done hclosed _ => exact absurd (hstage ▸ trivial) hclosed
              | settled _ hclosed _ => exact absurd (hstage ▸ trivial) hclosed
            · cases hmoves with
              | absent hwas => exact hwas
              | observed _ | applying _ | answered _ => cases hstage
              | done hclosed _ => exact absurd (hstage ▸ trivial) hclosed
              | settled _ hclosed _ => exact absurd (hstage ▸ trivial) hclosed
          · exact began_keep (ih hmid key pass hsame) (hdrop key)
      | drop k =>
          rw [Table.get?_erase] at hpass
          split at hpass
          · cases hpass
          · next hne =>
              refine began_keep (ih hmid key pass hpass) fun heq => hne ?_
              exact (Action.drop.inj heq).symm

/-- An effect is applied only by a call that found it neither applied nor rejected at
any time until then, and that has reserved it itself or was told that it is not applied. -/
theorem ensure_applies (sha256 : String → String) (projectId : String) {actions : List Action}
    {s s' : EnsureState} {key : PassKey} (hrun : run sha256 projectId actions = .ok s)
    (happly : s.step sha256 (.apply key) = .ok s') :
    ∃ before resource claim definition now after t,
      actions = before ++ .ensure resource claim definition now :: after ∧
        claim.passKey = key ∧ .drop key ∉ after ∧ run sha256 projectId before = .ok t ∧
        (∀ earlier later u, before = earlier ++ later → run sha256 projectId earlier = .ok u →
          ¬ Stored sha256 u.store claim.ref definition.key .applied ∧
            ¬ Stored sha256 u.store claim.ref definition.key .rejected) ∧
        ((∀ state, ¬ Stored sha256 t.store claim.ref definition.key state) ∨
          .observe key (.ok .not_applied) ∈ after) := by
  obtain ⟨pass, hpass, hstage⟩ : ∃ pass, s.passes.get? key = some pass ∧ pass.stage = .ready := by
    simp only [step, advance, bind_ok, orThrow_ok] at happly
    obtain ⟨pass, hpass, _, hproceed, -⟩ := happly
    refine ⟨pass, hpass, ?_⟩
    simp only [proceed] at hproceed
    split at hproceed
    · next hready => exact hready
    · cases hproceed
  obtain ⟨before, resource, claim, definition, now, after, t, hactions, hkey, hdrop, hbefore, -, -,
    hfound, -, hready⟩ := began_run hrun key pass hpass
  obtain ⟨hlease, hopen⟩ := hfound (hstage ▸ trivial)
  refine ⟨before, resource, claim, definition, now, after, t, hactions, hkey, hdrop, hbefore, ?_,
    hready hstage⟩
  rintro earlier later u rfl hearlier
  obtain ⟨u', hu', hlater⟩ := Trace.accepted_append.1 hbefore
  obtain rfl := Except.ok.inj (hearlier.symm.trans hu')
  have hnever : ¬ Settled sha256 u.store claim.ref definition.key := by
    intro hsettled
    have hlatched := latched_run hearlier
    exact hopen (settled_accepted hlatched hlater
      (lease_of_settled hlatched hlater hsettled hlease) hsettled)
  exact ⟨fun happlied => hnever (.inl happlied), fun hrejected => hnever (.inr hrejected)⟩

/-! ## A first call -/

open ResourceDb (jobRef jobOptions jobClaim claimedJob)

/-- A resource is created and claimed, and its pass reserves an effect. -/
def firstEnsure : List Action :=
  [.other (.putResource ⟨jobRef, .null, .null, 0, "uid-1"⟩ "managed-resource-1"),
    .other (.claimNext jobOptions),
    .ensure ⟨jobRef, "uid-1", 1⟩ jobClaim ⟨"publish", "publish", .null⟩ 1]

theorem run_firstEnsure : ∃ s s', run id "project" firstEnsure = .ok s ∧
    s.step id (.apply jobClaim.passKey) = .ok s' := by
  have hclaim : EnsureState.step id ⟨ManagedStore.createdStore, .empty⟩ (.other (.claimNext jobOptions)) =
      .ok ⟨{ ManagedStore.createdStore with db := claimedJob }, .empty⟩ := by
    show (ManagedStore.createdStore.step id (.claimNext jobOptions)).map _ = _
    rw [ManagedStore.step_createdStore]
    rfl
  obtain ⟨s, s', hensure, happly⟩ : ∃ s s', EnsureState.step id
      ⟨{ ManagedStore.createdStore with db := claimedJob }, .empty⟩
        (.ensure ⟨jobRef, "uid-1", 1⟩ jobClaim ⟨"publish", "publish", .null⟩ 1) = .ok s ∧
          s.step id (.apply jobClaim.passKey) = .ok s' := ⟨_, _, rfl, rfl⟩
  refine ⟨s, s', ?_, happly⟩
  have hput : EnsureState.step id (fresh "project")
      (.other (.putResource ⟨jobRef, .null, .null, 0, "uid-1"⟩ "managed-resource-1")) =
        .ok ⟨ManagedStore.createdStore, .empty⟩ := rfl
  exact Trace.accepted_cons.2 ⟨_, hput, Trace.accepted_cons.2 ⟨_, hclaim,
    Trace.accepted_cons.2 ⟨_, hensure, rfl⟩⟩⟩

/-- It may apply its effect, which it has reserved itself. -/
theorem firstEnsure_applies :
    ∃ before resource claim definition now after t,
      firstEnsure = before ++ .ensure resource claim definition now :: after ∧
        claim.passKey = jobClaim.passKey ∧ .drop jobClaim.passKey ∉ after ∧
        run id "project" before = .ok t ∧
        (∀ earlier later u, before = earlier ++ later → run id "project" earlier = .ok u →
          ¬ Stored id u.store claim.ref definition.key .applied ∧
            ¬ Stored id u.store claim.ref definition.key .rejected) ∧
        ((∀ state, ¬ Stored id t.store claim.ref definition.key state) ∨
          .observe jobClaim.passKey (.ok .not_applied) ∈ after) := by
  obtain ⟨s, s', hrun, happly⟩ := run_firstEnsure
  exact ensure_applies id "project" hrun happly

end EnsureState

end PiWorkflows
