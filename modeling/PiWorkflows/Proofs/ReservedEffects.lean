import PiWorkflows.Proofs.ResourceLives

/-!
# What a reserved effect reports

The id of an effect follows from its resource and its key (`Addressed`), so the row
a key maps to is the one that was reserved first, and it keeps what it was reserved
with (`Reserved`). But its generation is read from the resource, as it is now. So
the record reports its reservation, and reserving it again succeeds for the same
reservation and conflicts with any other, exactly as long as the resource still has
the generation of that reservation (`reservedEffect_iff`).
-/

namespace PiWorkflows

open Fallible

namespace ManagedStore

variable {sha256 : String → String} {s s' : ManagedStore}

/-! ## Rows of effects -/

/-- Columns that are set by the reservation only. -/
structure SameRequest (effect effect' : ManagedEffectRow) : Prop where
  sourceResourceId : effect'.sourceResourceId = effect.sourceResourceId
  idempotencyKey : effect'.idempotencyKey = effect.idempotencyKey
  effectType : effect'.effectType = effect.effectType
  payload : effect'.payload = effect.payload

variable (sha256) in
/-- What a call does to the effects: nothing, reserve one or settle one. -/
inductive EffectChange (s s' : ManagedStore) : Prop where
  | kept (h : s'.effects = s.effects)
  | reserved (new : ManagedEffectRow) (ref : ManagedResourceRef)
      (hlease : (s.db.leases.get? ref).isSome = true)
      (hsource : new.sourceResourceId = s.resourceIdOf sha256 ref)
      (hfree : s.effects.get? (effectIdFor sha256 new.sourceResourceId new.idempotencyKey) = none)
      (hget : ∀ id, s'.effects.get? id =
        if id = effectIdFor sha256 new.sourceResourceId new.idempotencyKey then some new
        else s.effects.get? id)
  | settled (effectId : String) (f : ManagedEffectRow → ManagedEffectRow)
      (hf : ∀ effect, SameRequest effect (f effect)) (h : s'.effects = s.effects.update effectId f)

theorem putResource_effects {options : ResourceDb.PutOptions} {managedResourceId : String}
    (h : s.putResource sha256 options managedResourceId = .ok s') : s'.effects = s.effects := by
  rcases putResource_ok h with ⟨-, -, -, -, db, -, heq⟩ | ⟨_, _, _, rfl⟩ | rfl
  · rw [heq]
  · rfl
  · rfl

theorem queueCall_effects {call : ResourceDb.Action} (h : s.queueCall sha256 call = .ok s') :
    s'.effects = s.effects := by
  obtain ⟨db, -, rfl⟩ := map_ok.1 h
  rfl

/-- A current claim names a resource with a lease, whose generation it has. -/
theorem claim_ok {ref : ManagedResourceRef} {claim : ResourceClaim} {now : Int}
    (h : s.assertResourceManagerClaim sha256 ref claim now = .ok ()) :
    ref = claim.ref ∧ (s.db.leases.get? claim.ref).isSome = true ∧
      (s.db.cell claim.ref).generation = claim.generation := by
  simp only [assertResourceManagerClaim, ResourceDb.requireLease, bind_ok, require_ok,
    orThrow_ok] at h
  obtain ⟨_, rfl, lease, hlease, hheld, -⟩ := h
  refine ⟨rfl, by rw [hlease]; rfl, ?_⟩
  rw [ResourceDb.cell, hlease]
  exact (of_decide_eq_true hheld).1

/-- All calls but two leave the effects alone. -/
theorem effects_kept {action : Action} (h : s.step sha256 action = .ok s')
    (hreserve : ∀ options, action ≠ .reserveEffect options)
    (hupdate : ∀ options, action ≠ .updateEffect options) : s'.effects = s.effects := by
  cases action with
  | putResource options managedResourceId => exact putResource_effects h
  | updateStatus options => exact (updateStatus_ok h).2.2.2
  | updateFinalizers ref version finalizers => exact (updateFinalizers_ok h).2.2.2
  | deleteResource ref version claim now =>
      obtain ⟨⟨deleted, _⟩, hdelete, rfl⟩ := map_ok.1 h
      rcases deleteResource_ok hdelete with ⟨-, rfl⟩ | ⟨-, rfl, -⟩
      · rfl
      · rfl
  | recordEvent ref claim now => rw [recordEvent_ok h]
  | reserveEffect options => exact absurd rfl (hreserve options)
  | updateEffect options => exact absurd rfl (hupdate options)
  | requestDeletion ref now => exact queueCall_effects h
  | enqueue ref availableAt now => exact queueCall_effects h
  | claimNext options => exact queueCall_effects h
  | renewClaim claim leaseMs now => exact queueCall_effects h
  | settleClaim claim now => exact queueCall_effects h
  | requeueClaim claim options now => exact queueCall_effects h

theorem step_effects {action : Action} (h : s.step sha256 action = .ok s') :
    EffectChange sha256 s s' := by
  by_cases hreserve : ∃ options, action = .reserveEffect options
  · obtain ⟨options, rfl⟩ := hreserve
    obtain ⟨⟨⟨record, created⟩, _⟩, hok, rfl⟩ := map_ok.1 h
    obtain ⟨ref, source, -, hclaim, ⟨-, rfl, -⟩ | ⟨-, -, hcreate, -⟩⟩ := reserveEffect_ok hok
    · exact .kept rfl
    · obtain ⟨-, -, -, hfree, hget⟩ := createEffect_ok hcreate
      obtain ⟨rfl, hlease, -⟩ := claim_ok hclaim
      exact .reserved (options.row _ _) _ hlease rfl hfree hget
  · by_cases hupdate : ∃ options, action = .updateEffect options
    · obtain ⟨options, rfl⟩ := hupdate
      obtain ⟨⟨record, _⟩, hok, rfl⟩ := map_ok.1 h
      obtain ⟨_, _, effectId, _, -, -, -, rfl, -⟩ := updateEffect_ok hok
      exact .settled effectId options.row (fun effect => ⟨rfl, rfl, rfl, rfl⟩) rfl
    · exact .kept (effects_kept h (fun options heq => hreserve ⟨options, heq⟩)
        (fun options heq => hupdate ⟨options, heq⟩))

/-- A row of before is still there, with its request. -/
theorem EffectChange.forward (h : EffectChange sha256 s s') {id : String} {effect : ManagedEffectRow}
    (heffect : s.effects.get? id = some effect) :
    ∃ effect', s'.effects.get? id = some effect' ∧ SameRequest effect effect' := by
  cases h with
  | kept h => exact ⟨effect, by rw [h, heffect], rfl, rfl, rfl, rfl⟩
  | reserved new _ _ _ hfree hget =>
      refine ⟨effect, ?_, rfl, rfl, rfl, rfl⟩
      rw [hget, if_neg]
      · exact heffect
      · rintro rfl
        rw [hfree] at heffect
        cases heffect
  | settled effectId f hf h =>
      rw [h, Table.get?_update, heffect]
      split
      · exact ⟨f effect, rfl, hf effect⟩
      · exact ⟨effect, rfl, rfl, rfl, rfl, rfl⟩

/-! ## Ids that follow from what they are of -/

variable (sha256) in
structure Addressed (s : ManagedStore) : Prop where
  uids : ∀ ref ref' row row', s.db.resources.get? ref = some row →
    s.db.resources.get? ref' = some row' → row.uid = row'.uid → ref = ref'
  effects : ∀ id effect, s.effects.get? id = some effect →
    id = effectIdFor sha256 effect.sourceResourceId effect.idempotencyKey

/-- A uid that is there after a call was there before, unless it is the one of a new resource. -/
theorem uid_before {action : Action} (h : s.step sha256 action = .ok s') {ref : ManagedResourceRef}
    {row' : ManagedResourceRow} (hrow' : s'.db.resources.get? ref = some row') :
    (∃ row, s.db.resources.get? ref = some row ∧ row.uid = row'.uid) ∨
      ∃ options managedResourceId, action = .putResource options managedResourceId ∧
        options.ref = ref ∧ row'.uid = options.uid ∧ s.db.resources.get? ref = none ∧
        ∀ other row, s.db.resources.get? other = some row → row.uid ≠ options.uid := by
  have hchange := (step_ok h).1 ref
  rw [hrow'] at hchange
  cases hold : s.db.resources.get? ref with
  | some row =>
      rw [hold] at hchange
      cases hchange with
      | kept hcontinues => exact .inl ⟨row, rfl, hcontinues.uid.symm⟩
  | none =>
      rw [hold] at hchange
      cases hchange with
      | created hput href huid _ =>
          subst hput href
          refine .inr ⟨_, _, rfl, rfl, huid, rfl, ?_⟩
          rcases putResource_ok h with ⟨-, -, -, hfresh, -⟩ | ⟨existing, hexisting, -⟩ | rfl
          · exact hfresh
          · rw [hold] at hexisting
            cases hexisting
          · rw [hold] at hrow'
            cases hrow'

theorem addressed_step {action : Action} (hs : Addressed sha256 s)
    (h : s.step sha256 action = .ok s') : Addressed sha256 s' := by
  refine ⟨fun ref ref' row row' hrow hrow' huid => ?_, fun id effect heffect => ?_⟩
  · rcases uid_before h hrow with ⟨old, hold, holduid⟩ | ⟨options, _, hput, href, hnew, -, hfresh⟩
    · rcases uid_before h hrow' with ⟨old', hold', holduid'⟩ | ⟨options', _, -, -, hnew', -, hfresh'⟩
      · exact hs.uids ref ref' old old' hold hold' (by rw [holduid, huid, holduid'])
      · exact absurd (by rw [holduid, huid, hnew']) (hfresh' ref old hold)
    · rcases uid_before h hrow' with ⟨old', hold', holduid'⟩ | ⟨options', _, hput', href', -⟩
      · exact absurd (by rw [holduid', ← huid, hnew]) (hfresh ref' old' hold')
      · rw [hput] at hput'
        obtain ⟨rfl, -⟩ := Action.putResource.inj hput'
        rw [← href, ← href']
  · cases step_effects h with
    | kept hkept => exact hs.effects id effect (by rw [← hkept]; exact heffect)
    | reserved new _ _ _ hfree hget =>
        rw [hget] at heffect
        split at heffect
        · next heq =>
            obtain rfl := Option.some.inj heffect
            exact heq
        · exact hs.effects id effect heffect
    | settled effectId f hf hsettled =>
        rw [hsettled, Table.get?_update] at heffect
        split at heffect
        · obtain ⟨old, hold, rfl⟩ := Option.map_eq_some_iff.1 heffect
          rw [(hf old).sourceResourceId, (hf old).idempotencyKey]
          exact hs.effects id old hold
        · exact hs.effects id effect heffect

/-- The row of a key, once the resource of the uid is known. -/
theorem effectRow_of_find {uid : String} {ref : ManagedResourceRef} {resource : ManagedResourceRow}
    (hfind : s.db.resources.find? (fun _ row => row.uid = uid) = some (ref, resource))
    (key : String) :
    s.effectRow sha256 uid key = (s.effects.find? fun _ effect =>
      effect.sourceResourceId = s.resourceIdOf sha256 ref ∧ effect.idempotencyKey = key).map
        fun e => (e.1, mapEffect resource e.2) := by
  rw [effectRow, hfind]
  show (s.effects.find? _ >>= _) = _
  cases s.effects.find? fun _ effect =>
    effect.sourceResourceId = s.resourceIdOf sha256 ref ∧ effect.idempotencyKey = key <;> rfl

/-- It is the one under the id that follows from them. -/
theorem Addressed.effectRow (hs : Addressed sha256 s) {ref : ManagedResourceRef}
    {resource : ManagedResourceRow} {key : String} {effect : ManagedEffectRow}
    (hresource : s.db.resources.get? ref = some resource)
    (heffect : s.effects.get? (effectIdFor sha256 (s.resourceIdOf sha256 ref) key) = some effect)
    (hsource : effect.sourceResourceId = s.resourceIdOf sha256 ref)
    (hkey : effect.idempotencyKey = key) :
    s.effectRow sha256 resource.uid key =
      some (effectIdFor sha256 (s.resourceIdOf sha256 ref) key, mapEffect resource effect) := by
  have hfind : s.db.resources.find? (fun _ row => decide (row.uid = resource.uid)) =
      some (ref, resource) :=
    Table.find?_of_unique hresource (decide_eq_true rfl) fun ref' row' hrow' huid =>
      hs.uids ref' ref row' resource hrow' hresource (of_decide_eq_true huid)
  have hrow : s.effects.find? (fun _ effect => decide (effect.sourceResourceId =
      s.resourceIdOf sha256 ref ∧ effect.idempotencyKey = key)) =
        some (effectIdFor sha256 (s.resourceIdOf sha256 ref) key, effect) :=
    Table.find?_of_unique heffect (decide_eq_true ⟨hsource, hkey⟩) fun id' effect' heffect' hsame => by
      obtain ⟨hsource', hkey'⟩ := of_decide_eq_true hsame
      rw [hs.effects id' effect' heffect', hsource', hkey']
  rw [effectRow_of_find hfind, hrow]
  rfl

/-! ## A reservation and all that comes after it -/

variable (sha256) in
/-- The row of the effect has what it was reserved with. -/
def Reserved (ref : ManagedResourceRef) (options : ReserveOptions) (s : ManagedStore) : Prop :=
  ∃ effect, s.effects.get? (effectIdFor sha256 (s.resourceIdOf sha256 ref) options.key) =
      some effect ∧
    effect.sourceResourceId = s.resourceIdOf sha256 ref ∧ effect.idempotencyKey = options.key ∧
    effect.effectType = options.kind ∧
    effect.payload.requestFingerprint = options.requestFingerprint

variable (sha256) in
/-- The resource of the name has the uid, or was deleted. -/
def LivesAs (ref : ManagedResourceRef) (uid : String) (s : ManagedStore) : Prop :=
  (∃ row, s.db.resources.get? ref = some row ∧ row.uid = uid) ∨ Gone sha256 s ref

theorem reserved_step {action : Action} {ref : ManagedResourceRef} {options : ReserveOptions}
    (hreserved : Reserved sha256 ref options s) (h : s.step sha256 action = .ok s') :
    Reserved sha256 ref options s' := by
  obtain ⟨effect, heffect, hsource, hkey, htype, hfingerprint⟩ := hreserved
  obtain ⟨effect', heffect', hsame⟩ := (step_effects h).forward heffect
  have hgrows := (step_ok h).2
  refine ⟨effect', ?_, ?_, hsame.idempotencyKey.trans hkey, hsame.effectType.trans htype, ?_⟩
  · rw [hgrows.resourceIdOf]
    exact heffect'
  · rw [hsame.sourceResourceId, hsource, hgrows.resourceIdOf]
  · rw [hsame.payload, hfingerprint]

theorem livesAs_step {action : Action} {ref : ManagedResourceRef} {uid : String}
    (hnamed : Named sha256 s) (hlives : LivesAs sha256 ref uid s)
    (h : s.step sha256 action = .ok s') : LivesAs sha256 ref uid s' := by
  rcases hlives with ⟨row, hrow, huid⟩ | hgone
  · have hchange := (step_ok h).1 ref
    rw [hrow] at hchange
    cases hnew : s'.db.resources.get? ref with
    | none => exact .inr ⟨hnew, (step_ok h).2.named_of (hnamed ref row hrow)⟩
    | some row' =>
        rw [hnew] at hchange
        cases hchange with
        | kept hcontinues => exact .inl ⟨row', hnew, hcontinues.uid.trans huid⟩
  · exact .inr (gone_step hgone h)

theorem named_run (sha256 : String → String) (projectId : String) (actions : List Action) :
    Named sha256 (run sha256 projectId actions) := by
  refine Trace.served_invariant (fun _ _ _ hnamed hstep => named_step hnamed hstep) ?_ actions
  exact fun _ _ hrow => nomatch hrow

theorem addressed_run (sha256 : String → String) (projectId : String) (actions : List Action) :
    Addressed sha256 (run sha256 projectId actions) := by
  refine Trace.served_invariant (fun _ _ _ haddressed hstep => addressed_step haddressed hstep)
    ⟨fun _ _ _ _ hrow => ?_, fun _ _ heffect => ?_⟩ actions
  · cases hrow
  · cases heffect

/-- The same reservation, apart from who makes it and when. -/
def ReserveOptions.Repeats (again options : ReserveOptions) : Prop :=
  again.generation = options.generation ∧ again.kind = options.kind ∧
    again.requestFingerprint = options.requestFingerprint

variable (sha256) in
/-- The record of a key reports its reservation, which succeeds again for everyone who
has the resource, and no other reservation of the key does. -/
def Reports (ref : ManagedResourceRef) (options : ReserveOptions) (s : ManagedStore) : Prop :=
  (∃ record, s.getEffect sha256 options.resourceUid options.key = some record ∧
    record.generation = options.generation ∧ record.kind = options.kind ∧
    record.requestFingerprint = options.requestFingerprint) ∧
  ∀ again : ReserveOptions, again.resourceUid = options.resourceUid → again.key = options.key →
    s.assertResourceManagerClaim sha256 ref again.claim again.now = .ok () →
      (again.Repeats options → ∃ record, s.reserveEffect sha256 again = .ok ((record, false), s)) ∧
      (¬ again.Repeats options →
        s.reserveEffect sha256 again = .error (effectConflict options.key))

/-- In a state with the reservation and its resource, what is reported has the
generation the resource has now. -/
theorem reports_iff {ref : ManagedResourceRef} {options : ReserveOptions}
    {resource : ManagedResourceRow} (haddressed : Addressed sha256 s)
    (hreserved : Reserved sha256 ref options s)
    (hresource : s.db.resources.get? ref = some resource)
    (huid : resource.uid = options.resourceUid) :
    Reports sha256 ref options s ↔ resource.generation = options.generation := by
  obtain ⟨effect, heffect, hsource, hkey, htype, hfingerprint⟩ := hreserved
  have hrow := haddressed.effectRow hresource heffect hsource hkey
  rw [huid] at hrow
  have hget : s.getEffect sha256 options.resourceUid options.key =
      some (mapEffect resource effect) := by
    rw [getEffect, hrow]
    rfl
  constructor
  · rintro ⟨⟨record, hrecord, hgeneration, -⟩, -⟩
    obtain rfl := Option.some.inj (hget.symm.trans hrecord)
    exact hgeneration
  · intro hsame
    refine ⟨⟨_, hget, hsame, htype, hfingerprint⟩, fun again hagain hkeys hclaim => ?_⟩
    have hfind : s.requireResourceManagerRowByUid again.resourceUid = .ok (ref, resource) := by
      rw [requireResourceManagerRowByUid, orThrow_ok, hagain, ← huid]
      exact Table.find?_of_unique hresource (decide_eq_true rfl) fun ref' row' hrow' heq =>
        haddressed.uids ref' ref row' resource hrow' hresource (of_decide_eq_true heq)
    have hreserve : s.reserveEffect sha256 again =
        (require (options.generation = again.generation ∧ options.kind = again.kind ∧
          options.requestFingerprint = again.requestFingerprint) (effectConflict options.key) >>=
            fun _ => pure ((mapEffect resource effect, false), s)) := by
      rw [reserveEffect, hfind]
      show (s.assertResourceManagerClaim sha256 ref again.claim again.now >>= _) = _
      rw [hclaim, hagain, hkeys, hrow, ← hsame, ← htype, ← hfingerprint]
      rfl
    rw [hreserve]
    constructor
    · rintro ⟨hgeneration, hkind, hrequest⟩
      exact ⟨mapEffect resource effect, by
        rw [require, if_pos ⟨hgeneration.symm, hkind.symm, hrequest.symm⟩]
        rfl⟩
    · intro hother
      rw [require, if_neg]
      · rfl
      · rintro ⟨hgeneration, hkind, hrequest⟩
        exact hother ⟨hgeneration.symm, hkind.symm, hrequest.symm⟩

/-- As long as the resource lives on, a reserved effect reports its reservation
exactly while the resource has the generation of the reservation. -/
theorem reservedEffect_iff (sha256 : String → String) (projectId : String) (before : List Action)
    {options : ReserveOptions} {record : EffectRecord} {s₁ : ManagedStore}
    (hreserve : (run sha256 projectId before).reserveEffect sha256 options =
      .ok ((record, true), s₁)) (after : List Action) {resource : ManagedResourceRow}
    (hlive : (Trace.served (step sha256) s₁ after).db.resources.get? options.claim.ref =
      some resource) :
    Reports sha256 options.claim.ref options (Trace.served (step sha256) s₁ after) ↔
      resource.generation = options.generation := by
  obtain ⟨ref, source, hfind, hclaim, ⟨hfalse, -⟩ | ⟨-, -, hcreate, -⟩⟩ := reserveEffect_ok hreserve
  · cases hfalse
  · obtain ⟨rfl, -⟩ := claim_ok hclaim
    obtain ⟨hsource, huid⟩ := Table.find?_some hfind
    have hstep : (run sha256 projectId before).step sha256 (.reserveEffect options) = .ok s₁ := by
      rw [step, hreserve]
      rfl
    obtain ⟨hdb, hproject, -, -, heffects⟩ := createEffect_ok hcreate
    have hid : s₁.resourceIdOf sha256 options.claim.ref =
        (run sha256 projectId before).resourceIdOf sha256 options.claim.ref :=
      (step_ok hstep).2.resourceIdOf _
    have hreserved : Reserved sha256 options.claim.ref options s₁ := by
      refine ⟨_, by rw [hid, heffects, if_pos rfl], ?_, rfl, rfl, rfl⟩
      exact hid.symm
    have hnamed := named_step (named_run sha256 projectId before) hstep
    have haddressed := addressed_step (addressed_run sha256 projectId before) hstep
    have hlives : LivesAs sha256 options.claim.ref options.resourceUid s₁ :=
      .inl ⟨source, by rw [hdb]; exact hsource, of_decide_eq_true huid⟩
    obtain ⟨-, haddressed', hreserved', hlives'⟩ := Trace.served_invariant
      (P := fun t => Named sha256 t ∧ Addressed sha256 t ∧
        Reserved sha256 options.claim.ref options t ∧
          LivesAs sha256 options.claim.ref options.resourceUid t)
      (fun t action t' h hnext => ⟨named_step h.1 hnext, addressed_step h.2.1 hnext,
        reserved_step h.2.2.1 hnext, livesAs_step h.1 h.2.2.2 hnext⟩)
      ⟨hnamed, haddressed, hreserved, hlives⟩ after
    rcases hlives' with ⟨row, hrow, huid'⟩ | hgone
    · obtain rfl := Option.some.inj (hrow.symm.trans hlive)
      exact reports_iff haddressed' hreserved' hlive huid'
    · rw [hgone.1] at hlive
      cases hlive

/-! ## An effect before and after a change of the spec -/

open ResourceDb (jobRef jobOptions jobClaim claimedJob)

def jobEffect : ReserveOptions :=
  ⟨"publish", "uid-1", jobClaim, 1, "publish", "aa", 1⟩

/-- A resource is created and claimed. -/
def claimOfJob : List Action :=
  [.putResource ⟨jobRef, .null, .null, 0, "uid-1"⟩ "managed-resource-1", .claimNext jobOptions]

theorem run_claimOfJob : run id "project" claimOfJob = { createdStore with db := claimedJob } :=
  claimNext_createdStore

theorem reserveEffect_job : ∃ record s₁,
    (run id "project" claimOfJob).reserveEffect id jobEffect = .ok ((record, true), s₁) ∧
      s₁.db = claimedJob ∧
      (Trace.served (step id) s₁ [.putResource ⟨jobRef, .bool true, .null, 2, "uid-2"⟩
        "managed-resource-2"]).getEffect id "uid-1" "publish" =
          some ⟨"publish", "uid-1", 2, "publish", .pending, "aa", 1, none, none, none⟩ := by
  rw [run_claimOfJob]
  exact ⟨_, _, rfl, rfl, rfl⟩

/-- Before the spec changes the effect reports its reservation. -/
theorem jobEffect_reported : ∃ record s₁,
    (run id "project" claimOfJob).reserveEffect id jobEffect = .ok ((record, true), s₁) ∧
      Reports id jobRef jobEffect s₁ := by
  obtain ⟨record, s₁, hreserve, hdb, -⟩ := reserveEffect_job
  refine ⟨record, s₁, hreserve, ?_⟩
  have hlive : (Trace.served (step id) s₁ []).db.resources.get? jobRef =
      some ⟨"uid-1", 1, storedJson .null, storedJson (.obj [("observedGeneration", .num (.ofNat 0)),
        ("conditions", .arr []), ("resourceManagerStatus", .null)]), none, 2⟩ := by
    rw [Trace.served_nil, hdb]
    rfl
  exact (reservedEffect_iff id "project" claimOfJob hreserve [] hlive).2 rfl

/-- After it the record has another generation. -/
theorem jobEffect_renumbered : ∃ record s₁,
    (run id "project" claimOfJob).reserveEffect id jobEffect = .ok ((record, true), s₁) ∧
      ¬ Reports id jobRef jobEffect (Trace.served (step id) s₁
        [.putResource ⟨jobRef, .bool true, .null, 2, "uid-2"⟩ "managed-resource-2"]) := by
  obtain ⟨record, s₁, hreserve, -, hrecord⟩ := reserveEffect_job
  refine ⟨record, s₁, hreserve, ?_⟩
  rintro ⟨⟨record', hrecord', hgeneration, -⟩, -⟩
  obtain rfl := Option.some.inj (hrecord.symm.trans hrecord')
  cases hgeneration

end ManagedStore

end PiWorkflows
