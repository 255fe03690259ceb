import PiWorkflows.Proofs.CanonicalText
import PiWorkflows.Proofs.ResourceWakes
import PiWorkflows.ResourceManagers.Store

/-!
# The lives of a managed resource

Every accepted call continues the lives of the resources that are there, begins
one or ends one (`Change`): a life keeps its uid, and its generation counts the
changes of its spec. The rows of `resources` that new lives insert are never
deleted, and their ids follow from the names. So a name whose resource was deleted
is not free again (`Gone`), and a project keeps what is expected of its resources
exactly until a deleted one is put again (`resourceLives_iff`).
-/

namespace PiWorkflows

open Fallible

namespace ManagedStore

variable {sha256 : String → String} {s s' : ManagedStore}

/-! ## Lives -/

/-- One life, a step later: the generation rises exactly if the spec has changed. -/
structure Continues (row row' : ManagedResourceRow) : Prop where
  uid : row'.uid = row.uid
  generation : row'.spec = row.spec ∧ row'.generation = row.generation ∨
    row'.spec ≠ row.spec ∧ row'.generation = row.generation + 1

theorem Continues.refl (row : ManagedResourceRow) : Continues row row :=
  ⟨rfl, .inl ⟨rfl, rfl⟩⟩

/-- What a call does to the resource of one name. -/
inductive Change (action : Action) (ref : ManagedResourceRef) :
    Option ManagedResourceRow → Option ManagedResourceRow → Prop where
  | absent : Change action ref none none
  | kept {row row' : ManagedResourceRow} (h : Continues row row') :
      Change action ref (some row) (some row')
  | created {row : ManagedResourceRow} {options : ResourceDb.PutOptions} {managedResourceId : String}
      (hput : action = .putResource options managedResourceId) (href : options.ref = ref)
      (huid : row.uid = options.uid) (hgeneration : row.generation = 1) :
      Change action ref none (some row)
  | deleted {row : ManagedResourceRow} {version : Nat} {claim : ResourceClaim} {now : Int}
      (hdelete : action = .deleteResource ref version claim now)
      (hrequested : row.deletionRequestedAt ≠ none) : Change action ref (some row) none

/-- A change of columns that are no part of a life. -/
def core (row : ManagedResourceRow) : String × Nat × Json :=
  (row.uid, row.generation, row.spec)

theorem continues_of_core {row row' : ManagedResourceRow} (h : core row' = core row) :
    Continues row row' := by
  obtain ⟨huid, hgeneration, hspec⟩ : row'.uid = row.uid ∧ row'.generation = row.generation ∧
      row'.spec = row.spec := by simpa [core] using h
  exact ⟨huid, .inl ⟨hspec, hgeneration⟩⟩

/-- Two databases with the same lives. -/
def SameLives (db db' : ResourceDb) : Prop :=
  ∀ ref, (db'.resources.get? ref).map core = (db.resources.get? ref).map core

theorem SameLives.trans {db₁ db₂ db₃ : ResourceDb} (h : SameLives db₁ db₂) (h' : SameLives db₂ db₃) :
    SameLives db₁ db₃ :=
  fun ref => (h' ref).trans (h ref)

theorem SameLives.change {db db' : ResourceDb} (h : SameLives db db') (action : Action)
    (ref : ManagedResourceRef) :
    Change action ref (db.resources.get? ref) (db'.resources.get? ref) := by
  have href := h ref
  cases hold : db.resources.get? ref with
  | none =>
      rw [hold] at href
      rw [Option.map_eq_none_iff.1 href]
      exact .absent
  | some row =>
      rw [hold] at href
      obtain ⟨row', hrow', heq⟩ := Option.map_eq_some_iff.1 href
      rw [hrow']
      exact .kept (continues_of_core heq)

theorem sameLives_of_resources {db db' : ResourceDb} (h : db'.resources = db.resources) :
    SameLives db db' :=
  fun ref => by rw [h]

theorem sameLives_update {db db' : ResourceDb} {target : ManagedResourceRef}
    {f : ManagedResourceRow → ManagedResourceRow} (hf : ∀ row, core (f row) = core row)
    (h : db'.resources = db.resources.update target f) : SameLives db db' := by
  intro ref
  rw [h, Table.get?_update]
  split
  · rw [Option.map_map]
    exact congrArg (Option.map · _) (funext hf)
  · rfl

theorem sameLives_bumpResource (db : ResourceDb) (ref : ManagedResourceRef) :
    SameLives db (db.bumpResource ref) :=
  sameLives_update (f := fun row => { row with resourceVersion := row.resourceVersion + 1 })
    (fun _ => rfl) rfl

theorem sameLives_settle {db db' : ResourceDb} {claim : ResourceClaim}
    {requeue : Option RequeueOptions} {now : Int} {accepted : Bool}
    (h : db.settleResourceManagerClaim sha256 claim requeue now = .ok (accepted, db')) :
    SameLives db db' := by
  unfold ResourceDb.settleResourceManagerClaim at h
  split at h
  · obtain rfl := (Prod.mk.inj (Except.ok.inj h)).2
    exact sameLives_of_resources rfl
  · split at h
    · simp only [bind_ok, Except.ok.injEq, Prod.mk.injEq] at h
      obtain ⟨item, -, -, rfl⟩ := h
      have hsettled : (db.settleQueue claim item now requeue).resources = db.resources := by
        unfold ResourceDb.settleQueue
        split
        · split <;> rfl
        · rfl
      exact (sameLives_of_resources hsettled).trans (sameLives_bumpResource _ _)
    · obtain rfl := (Prod.mk.inj (Except.ok.inj h)).2
      exact sameLives_of_resources rfl

/-- Calls about the queue leave all lives as they are. -/
theorem sameLives_step {db db' : ResourceDb} {action : ResourceDb.Action}
    (hput : ∀ options, action ≠ .putResource options) (h : db.step sha256 action = .ok db') :
    SameLives db db' := by
  cases action with
  | putResource options => exact absurd rfl (hput options)
  | requestDeletion ref now =>
      simp only [ResourceDb.step, ResourceDb.requestDeletion, bind_ok] at h
      obtain ⟨row, -, h⟩ := h
      split at h
      · obtain rfl := Except.ok.inj h
        exact (sameLives_update (f := fun row => { row with deletionRequestedAt := some now })
          (fun _ => rfl) rfl).trans (sameLives_bumpResource { db with resources := _ } ref)
      · obtain rfl := Except.ok.inj h
        exact sameLives_of_resources rfl
  | enqueue ref availableAt now =>
      simp only [ResourceDb.step, ResourceDb.enqueue, bind_ok] at h
      obtain ⟨_, -, h⟩ := h
      obtain rfl := Except.ok.inj h
      exact sameLives_of_resources rfl
  | claimNext options =>
      obtain ⟨⟨given, db'⟩, hclaim, rfl⟩ := map_ok.1 h
      unfold ResourceDb.claimNext at hclaim
      split at hclaim
      · obtain rfl := (Prod.mk.inj (Except.ok.inj hclaim)).2
        exact sameLives_of_resources rfl
      · simp only [bind_ok, Except.ok.injEq, Prod.mk.injEq] at hclaim
        obtain ⟨_, -, _, -, -, rfl⟩ := hclaim
        exact sameLives_bumpResource _ _
  | renewClaim claim leaseMs now =>
      obtain rfl := Except.ok.inj h
      refine sameLives_of_resources ?_
      unfold ResourceDb.renewClaim
      split <;> rfl
  | settleClaim claim now =>
      obtain ⟨⟨accepted, db'⟩, hsettle, rfl⟩ := map_ok.1 h
      exact sameLives_settle hsettle
  | requeueClaim claim options now =>
      obtain ⟨⟨accepted, db'⟩, hsettle, rfl⟩ := map_ok.1 h
      exact sameLives_settle hsettle

/-! ## What one call does -/

/-- A new spec under another digest is another spec. -/
theorem spec_changed {existing : ManagedResourceRow} {spec : Json}
    (h : ResourceDb.changesSpec sha256 existing spec = true) : storedJson spec ≠ existing.spec := by
  intro heq
  refine of_decide_eq_true h ?_
  rw [jsonHash, jsonHash, ← heq, storedJson, canonicalJson_eq_iff.2 (normalizeJson_idem spec)]

theorem insertAggregate_ok {resourceId : String} {row : AggregateRow}
    {aggregates : Table String AggregateRow}
    (h : s.insertAggregate resourceId row = .ok aggregates) :
    s.aggregates.get? resourceId = none ∧
      ∀ id, aggregates.get? id = if id = resourceId then some row else s.aggregates.get? id := by
  simp only [insertAggregate, bind_ok, orThrow_ok, require_ok, pure_ok] at h
  obtain ⟨inserted, hinsert, _, -, rfl⟩ := h
  exact Table.get?_of_insert? hinsert

/-- A put creates a resource under a free id, changes its spec, or does nothing. -/
theorem putResource_ok {options : ResourceDb.PutOptions} {managedResourceId : String}
    (h : s.putResource sha256 options managedResourceId = .ok s') :
    (s.db.resources.get? options.ref = none ∧
        s.aggregates.get? (s.resourceIdOf sha256 options.ref) = none ∧
        (∀ id, s'.aggregates.get? id = if id = s.resourceIdOf sha256 options.ref then
          some ⟨.managed_resource, managedResourceId⟩ else s.aggregates.get? id) ∧
        (∀ ref row, s.db.resources.get? ref = some row → row.uid ≠ options.uid) ∧
        ∃ db, s.db.createResource options = .ok db ∧ s' = { s with db, aggregates := s'.aggregates }) ∨
      (∃ existing, s.db.resources.get? options.ref = some existing ∧
        ResourceDb.changesSpec sha256 existing options.spec = true ∧
        s' = { s with db := s.db.changeSpec options }) ∨ s' = s := by
  simp only [putResource, bind_ok] at h
  obtain ⟨_, -, _, -, h⟩ := h
  split at h
  · next hnone =>
      simp only [bind_ok, require_ok, pure_ok] at h
      obtain ⟨aggregates, haggregates, _, huid, db, hcreate, rfl⟩ := h
      obtain ⟨hfree, hget⟩ := insertAggregate_ok haggregates
      refine .inl ⟨hnone, hfree, hget, fun ref row hrow => ?_, db, hcreate, rfl⟩
      exact of_decide_eq_false (Table.any_eq_false.1 huid ref row hrow)
  · next existing hexisting =>
      split at h
      · next hchanged =>
          obtain rfl := pure_ok.1 h
          exact .inr (.inl ⟨existing, hexisting, hchanged, rfl⟩)
      · exact .inr (.inr (pure_ok.1 h).symm)

theorem createResource_get {db db' : ResourceDb} {options : ResourceDb.PutOptions}
    (h : db.createResource options = .ok db') :
    ∃ row, row.uid = options.uid ∧ row.generation = 1 ∧ row.spec = storedJson options.spec ∧
      ∀ ref, db'.resources.get? ref = if ref = options.ref then some row
        else db.resources.get? ref := by
  simp only [ResourceDb.createResource, bind_ok, orThrow_ok, Except.ok.injEq] at h
  obtain ⟨resources, hresources, leases, -, rfl⟩ := h
  exact ⟨_, rfl, rfl, rfl, (Table.get?_of_insert? hresources).2⟩

theorem changeSpec_resources (db : ResourceDb) (options : ResourceDb.PutOptions) :
    (db.changeSpec options).resources =
      (db.resources.update options.ref fun row =>
        { row with spec := storedJson options.spec, generation := row.generation + 1 }).update
          options.ref fun row => { row with resourceVersion := row.resourceVersion + 1 } :=
  rfl

theorem putResource_change {options : ResourceDb.PutOptions} {managedResourceId : String}
    (h : s.putResource sha256 options managedResourceId = .ok s') (ref : ManagedResourceRef) :
    Change (.putResource options managedResourceId) ref (s.db.resources.get? ref)
      (s'.db.resources.get? ref) := by
  rcases putResource_ok h with ⟨hnone, -, -, -, db, hcreate, heq⟩ | ⟨existing, hexisting, hchanged, rfl⟩ |
    rfl
  · obtain ⟨row, huid, hgeneration, -, hget⟩ := createResource_get hcreate
    rw [heq]
    show Change _ _ _ (db.resources.get? ref)
    rw [hget ref]
    split
    · next href =>
        rw [href, hnone]
        exact .created rfl rfl huid hgeneration
    · exact (sameLives_of_resources rfl).change _ ref
  · by_cases href : ref = options.ref
    · subst href
      have hget : (s.db.changeSpec options).resources.get? options.ref =
          some { existing with
            spec := storedJson options.spec, generation := existing.generation + 1
            resourceVersion := existing.resourceVersion + 1 } := by
        rw [changeSpec_resources, Table.get?_update_self, Table.get?_update_self, hexisting]
        rfl
      rw [hexisting, hget]
      exact .kept ⟨rfl, .inr ⟨spec_changed hchanged, rfl⟩⟩
    · have hget : (s.db.changeSpec options).resources.get? ref = s.db.resources.get? ref := by
        rw [changeSpec_resources, Table.get?_update_ne href, Table.get?_update_ne href]
      rw [hget]
      exact (sameLives_of_resources rfl).change _ ref
  · exact (sameLives_of_resources rfl).change _ ref

theorem updateStatus_ok {options : StatusOptions} (h : s.updateStatus sha256 options = .ok s') :
    SameLives s.db s'.db ∧ s'.projectId = s.projectId ∧ s'.aggregates = s.aggregates ∧
      s'.effects = s.effects := by
  simp only [updateStatus, bind_ok, require_ok, pure_ok] at h
  obtain ⟨_, -, _, -, _, -, finalizers, -, rfl⟩ := h
  refine ⟨?_, rfl, rfl, rfl⟩
  exact (sameLives_update (f := fun row => { row with status := storedJson options.status })
    (fun _ => rfl) rfl).trans (sameLives_bumpResource { s.db with resources := _ } _)

theorem updateFinalizers_ok {ref : ManagedResourceRef} {version : Nat} {finalizers : List String}
    (h : s.updateFinalizers ref version finalizers = .ok s') :
    SameLives s.db s'.db ∧ s'.projectId = s.projectId ∧ s'.aggregates = s.aggregates ∧
      s'.effects = s.effects := by
  simp only [updateFinalizers, bind_ok, require_ok, pure_ok] at h
  obtain ⟨_, -, _, -, finalizers, -, rfl⟩ := h
  exact ⟨sameLives_bumpResource _ _, rfl, rfl, rfl⟩

theorem recordEvent_ok {ref : ManagedResourceRef} {claim : Option ResourceClaim} {now : Int}
    (h : s.recordEvent sha256 ref claim now = .ok s') : s' = { s with db := s.db.bumpResource ref } := by
  simp only [recordEvent, bind_ok] at h
  obtain ⟨_, -, h⟩ := h
  cases claim with
  | none => exact (pure_ok.1 h).symm
  | some claim =>
      simp only [bind_ok, pure_ok] at h
      obtain ⟨_, -, rfl⟩ := h
      rfl

theorem deleteResource_ok {ref : ManagedResourceRef} {version : Nat} {claim : ResourceClaim}
    {now : Int} {deleted : Bool}
    (h : s.deleteResource sha256 ref version claim now = .ok (deleted, s')) :
    deleted = false ∧ s' = s ∨ deleted = true ∧ s' = s.eraseResource ref ∧
      ∃ row, s.db.resources.get? ref = some row ∧ row.deletionRequestedAt ≠ none ∧
        s.finalizersOf ref = [] := by
  simp only [deleteResource, ResourceDb.requireResourceManagerRow, bind_ok, orThrow_ok] at h
  obtain ⟨row, hrow, _, -, _, -, h⟩ := h
  split at h
  · obtain ⟨rfl, rfl⟩ := Prod.mk.inj (pure_ok.1 h)
    exact .inl ⟨rfl, rfl⟩
  · next hfree =>
      obtain ⟨rfl, rfl⟩ := Prod.mk.inj (pure_ok.1 h)
      rw [not_or, Nat.not_lt, Nat.le_zero, List.length_eq_zero_iff] at hfree
      exact .inr ⟨rfl, rfl, row, hrow, hfree⟩

theorem createEffect_ok {options : ReserveOptions} {sourceResourceId : String} {revision : Nat}
    (h : s.createEffect sha256 options sourceResourceId revision = .ok s') :
    s'.db = s.db ∧ s'.projectId = s.projectId ∧
      (∀ id row, s.aggregates.get? id = some row → s'.aggregates.get? id = some row) ∧
      s.effects.get? (effectIdFor sha256 sourceResourceId options.key) = none ∧
      ∀ id, s'.effects.get? id = if id = effectIdFor sha256 sourceResourceId options.key then
        some (options.row sourceResourceId revision) else s.effects.get? id := by
  simp only [createEffect, bind_ok, orThrow_ok, pure_ok] at h
  obtain ⟨aggregates, haggregates, effects, heffects, rfl⟩ := h
  obtain ⟨hfree, hget⟩ := insertAggregate_ok haggregates
  obtain ⟨hnone, heffect⟩ := Table.get?_of_insert? heffects
  refine ⟨rfl, rfl, fun id row hrow => ?_, hnone, heffect⟩
  rw [hget id, if_neg]
  · exact hrow
  · rintro rfl
    rw [hfree] at hrow
    cases hrow

/-- A reservation finds its effect and leaves the store alone, or creates it. -/
theorem reserveEffect_ok {options : ReserveOptions} {record : EffectRecord} {created : Bool}
    (h : s.reserveEffect sha256 options = .ok ((record, created), s')) :
    ∃ ref source, s.db.resources.find? (fun _ row => row.uid = options.resourceUid) =
        some (ref, source) ∧
      s.assertResourceManagerClaim sha256 ref options.claim options.now = .ok () ∧
      (created = false ∧ s' = s ∧
          s.getEffect sha256 options.resourceUid options.key = some record ∧
          record.generation = options.generation ∧ record.kind = options.kind ∧
          record.requestFingerprint = options.requestFingerprint ∨
        created = true ∧ s.getEffect sha256 options.resourceUid options.key = none ∧
          s.createEffect sha256 options (s.resourceIdOf sha256 ref) source.resourceVersion = .ok s' ∧
          s'.getEffect sha256 options.resourceUid options.key = some record) := by
  simp only [reserveEffect, requireResourceManagerRowByUid, bind_ok, orThrow_ok, Prod.exists] at h
  obtain ⟨ref, source, hfind, _, hclaim, h⟩ := h
  refine ⟨ref, source, hfind, hclaim, ?_⟩
  split at h
  · next effectId existing hexisting =>
      simp only [bind_ok, require_ok, pure_ok, Prod.mk.injEq] at h
      obtain ⟨_, hsame, ⟨rfl, rfl⟩, rfl⟩ := h
      exact .inl ⟨rfl, rfl, by rw [getEffect, hexisting]; rfl, hsame⟩
  · next hnone =>
      simp only [bind_ok, requireEffectRow, orThrow_ok, pure_ok, Prod.mk.injEq, Prod.exists] at h
      obtain ⟨mid, hcreate, effectId, created', hrow, ⟨rfl, rfl⟩, rfl⟩ := h
      exact .inr ⟨rfl, by rw [getEffect, hnone]; rfl, hcreate, by rw [getEffect, hrow]; rfl⟩

/-- The row an update has changed. -/
theorem updateEffect_ok {options : UpdateOptions} {record : EffectRecord}
    (h : s.updateEffect sha256 options = .ok (record, s')) :
    ∃ ref source effectId old, s.db.resources.find? (fun _ row => row.uid = options.resourceUid) =
        some (ref, source) ∧
      s.assertResourceManagerClaim sha256 ref options.claim options.now = .ok () ∧
      s.effectRow sha256 options.resourceUid options.key = some (effectId, old) ∧
      s' = { s with effects := s.effects.update effectId options.row } ∧
      s'.getEffect sha256 options.resourceUid options.key = some record := by
  simp only [updateEffect, requireResourceManagerRowByUid, requireEffectRow, bind_ok, orThrow_ok,
    pure_ok, Prod.mk.injEq, Prod.exists] at h
  obtain ⟨ref, source, hfind, _, hclaim, effectId, old, hold, _, _, hrow, rfl, rfl⟩ := h
  exact ⟨ref, source, effectId, old, hfind, hclaim, hold, rfl, by rw [getEffect, hrow]; rfl⟩

/-! ## Every call -/

/-- Rows of `resources` are never deleted. -/
structure Grows (s s' : ManagedStore) : Prop where
  projectId : s'.projectId = s.projectId
  aggregates : ∀ id row, s.aggregates.get? id = some row → s'.aggregates.get? id = some row

theorem Grows.refl (s : ManagedStore) : Grows s s :=
  ⟨rfl, fun _ _ h => h⟩

theorem Grows.of_eq (hproject : s'.projectId = s.projectId) (h : s'.aggregates = s.aggregates) :
    Grows s s' :=
  ⟨hproject, fun _ _ hrow => h ▸ hrow⟩

theorem Grows.resourceIdOf (h : Grows s s') (ref : ManagedResourceRef) :
    s'.resourceIdOf sha256 ref = s.resourceIdOf sha256 ref := by
  rw [ManagedStore.resourceIdOf, h.projectId, ManagedStore.resourceIdOf]

theorem putResource_grows {options : ResourceDb.PutOptions} {managedResourceId : String}
    (h : s.putResource sha256 options managedResourceId = .ok s') : Grows s s' := by
  rcases putResource_ok h with ⟨-, hfree, hget, -, db, -, heq⟩ | ⟨_, _, _, rfl⟩ | rfl
  · refine ⟨by rw [heq], fun id row hrow => ?_⟩
    rw [hget id, if_neg]
    · exact hrow
    · rintro rfl
      rw [hfree] at hrow
      cases hrow
  · exact .of_eq rfl rfl
  · exact .refl _

/-- What an accepted call does to the resources and to the rows of `resources`. -/
theorem step_ok {action : Action} (h : s.step sha256 action = .ok s') :
    (∀ ref, Change action ref (s.db.resources.get? ref) (s'.db.resources.get? ref)) ∧
      Grows s s' := by
  have hqueue : ∀ call : ResourceDb.Action, (∀ options, call ≠ .putResource options) →
      s.queueCall sha256 call = .ok s' →
      (∀ ref, Change action ref (s.db.resources.get? ref) (s'.db.resources.get? ref)) ∧
        Grows s s' := by
    intro call hput hcall
    obtain ⟨db, hstep, rfl⟩ := map_ok.1 hcall
    exact ⟨(sameLives_step hput hstep).change action, .of_eq rfl rfl⟩
  cases action with
  | putResource options managedResourceId => exact ⟨putResource_change h, putResource_grows h⟩
  | updateStatus options =>
      obtain ⟨hlives, hproject, haggregates, -⟩ := updateStatus_ok h
      exact ⟨hlives.change _, .of_eq hproject haggregates⟩
  | updateFinalizers ref version finalizers =>
      obtain ⟨hlives, hproject, haggregates, -⟩ := updateFinalizers_ok h
      exact ⟨hlives.change _, .of_eq hproject haggregates⟩
  | deleteResource ref version claim now =>
      obtain ⟨⟨deleted, _⟩, hdelete, rfl⟩ := map_ok.1 h
      rcases deleteResource_ok hdelete with ⟨-, rfl⟩ | ⟨-, rfl, row, hrow, hrequested, -⟩
      · exact ⟨(sameLives_of_resources rfl).change _, .refl _⟩
      · refine ⟨fun target => ?_, .of_eq rfl rfl⟩
        show Change _ target _ ((s.db.resources.erase ref).get? target)
        rw [Table.get?_erase]
        split
        · next htarget =>
            rw [htarget, hrow]
            exact .deleted rfl hrequested
        · exact (sameLives_of_resources rfl).change _ target
  | recordEvent ref claim now =>
      obtain rfl := recordEvent_ok h
      exact ⟨(sameLives_bumpResource _ _).change _, .of_eq rfl rfl⟩
  | reserveEffect options =>
      obtain ⟨⟨⟨record, created⟩, _⟩, hreserve, rfl⟩ := map_ok.1 h
      obtain ⟨ref, source, -, -, ⟨-, rfl, -⟩ | ⟨-, -, hcreate, -⟩⟩ := reserveEffect_ok hreserve
      · exact ⟨(sameLives_of_resources rfl).change _, .refl _⟩
      · obtain ⟨hdb, hproject, haggregates, -⟩ := createEffect_ok hcreate
        exact ⟨(sameLives_of_resources (by rw [hdb])).change _, hproject, haggregates⟩
  | updateEffect options =>
      obtain ⟨⟨record, _⟩, hupdate, rfl⟩ := map_ok.1 h
      obtain ⟨_, _, _, _, -, -, -, rfl, -⟩ := updateEffect_ok hupdate
      exact ⟨(sameLives_of_resources rfl).change _, .of_eq rfl rfl⟩
  | requestDeletion ref now => exact hqueue _ (fun _ heq => by cases heq) h
  | enqueue ref availableAt now => exact hqueue _ (fun _ heq => by cases heq) h
  | claimNext options => exact hqueue _ (fun _ heq => by cases heq) h
  | renewClaim claim leaseMs now => exact hqueue _ (fun _ heq => by cases heq) h
  | settleClaim claim now => exact hqueue _ (fun _ heq => by cases heq) h
  | requeueClaim claim options now => exact hqueue _ (fun _ heq => by cases heq) h

/-! ## Names that are not free -/

variable (sha256) in
/-- Every resource has its row of `resources`. -/
def Named (s : ManagedStore) : Prop :=
  ∀ ref row, s.db.resources.get? ref = some row →
    (s.aggregates.get? (s.resourceIdOf sha256 ref)).isSome = true

theorem Grows.named_of {ref : ManagedResourceRef} (h : Grows s s')
    (hnamed : (s.aggregates.get? (s.resourceIdOf sha256 ref)).isSome = true) :
    (s'.aggregates.get? (s'.resourceIdOf sha256 ref)).isSome = true := by
  obtain ⟨row, hrow⟩ := Option.isSome_iff_exists.1 hnamed
  rw [h.resourceIdOf, h.aggregates _ row hrow]
  rfl

theorem named_step {action : Action} (hnamed : Named sha256 s)
    (h : s.step sha256 action = .ok s') : Named sha256 s' := by
  intro ref row' hrow'
  obtain ⟨hchange, hgrows⟩ := step_ok h
  have href := hchange ref
  rw [hrow'] at href
  cases hold : s.db.resources.get? ref with
  | some row => exact hgrows.named_of (hnamed ref row hold)
  | none =>
      rw [hold] at href
      cases href with
      | created hput hname _ _ =>
          subst hput hname
          rcases putResource_ok h with ⟨-, -, hget, -⟩ | ⟨existing, hexisting, -⟩ | rfl
          · rw [hgrows.resourceIdOf, hget, if_pos rfl]
            rfl
          · rw [hold] at hexisting
            cases hexisting
          · rw [hold] at hrow'
            cases hrow'

variable (sha256) in
/-- The resource is not there, but its row of `resources` is. -/
def Gone (s : ManagedStore) (ref : ManagedResourceRef) : Prop :=
  s.db.resources.get? ref = none ∧ (s.aggregates.get? (s.resourceIdOf sha256 ref)).isSome = true

/-- A name that is gone cannot be put. -/
theorem putResource_gone {options : ResourceDb.PutOptions} {managedResourceId : String}
    (hgone : Gone sha256 s options.ref) :
    s.putResource sha256 options managedResourceId ≠ .ok s' := by
  intro h
  obtain ⟨hnone, hnamed⟩ := hgone
  simp only [putResource, bind_ok] at h
  obtain ⟨_, -, _, -, h⟩ := h
  rw [hnone] at h
  simp only [bind_ok] at h
  obtain ⟨aggregates, haggregates, -⟩ := h
  rw [(insertAggregate_ok haggregates).1] at hnamed
  cases hnamed

theorem gone_step {action : Action} {ref : ManagedResourceRef} (hgone : Gone sha256 s ref)
    (h : s.step sha256 action = .ok s') : Gone sha256 s' ref := by
  obtain ⟨hchange, hgrows⟩ := step_ok h
  refine ⟨?_, hgrows.named_of hgone.2⟩
  have href := hchange ref
  rw [hgone.1] at href
  cases hnew : s'.db.resources.get? ref with
  | none => rfl
  | some row =>
      rw [hnew] at href
      cases href with
      | created hput hname _ _ =>
          subst hput hname
          exact absurd h (putResource_gone hgone)

/-! ## Histories -/

variable (sha256) in
/-- The name whose resource the call deletes. -/
def deletedBy (s : ManagedStore) : Action → List ManagedResourceRef
  | .deleteResource ref version claim now =>
      match s.deleteResource sha256 ref version claim now with
      | .ok (true, _) => [ref]
      | _ => []
  | _ => []

variable (sha256) in
/-- The names for which `deleteResource` has returned true. -/
def deletedRefs : ManagedStore → List Action → List ManagedResourceRef
  | _, [] => []
  | s, action :: rest => deletedBy sha256 s action ++
      deletedRefs (Trace.serve (step sha256) s action) rest

theorem gone_of_deletedBy {action : Action} {ref : ManagedResourceRef} (hnamed : Named sha256 s)
    (h : ref ∈ deletedBy sha256 s action) :
    Gone sha256 (Trace.serve (step sha256) s action) ref := by
  unfold deletedBy at h
  split at h
  · next target version claim now =>
      split at h
      · next s' hdelete =>
          obtain rfl := List.mem_singleton.1 h
          have hstep : s.step sha256 (.deleteResource ref version claim now) = .ok s' := by
            rw [step, hdelete]
            rfl
          rw [Trace.serve_of_ok hstep]
          rcases deleteResource_ok hdelete with ⟨hfalse, -⟩ | ⟨-, rfl, row, hrow, -⟩
          · cases hfalse
          · refine ⟨?_, hnamed ref row hrow⟩
            show (s.db.resources.erase ref).get? ref = none
            rw [Table.get?_erase, if_pos rfl]
      · exact absurd h List.not_mem_nil
  · exact absurd h List.not_mem_nil

theorem gone_of_deletedRefs {actions : List Action} {ref : ManagedResourceRef}
    (hnamed : Named sha256 s) (h : ref ∈ deletedRefs sha256 s actions) :
    Gone sha256 (Trace.served (step sha256) s actions) ref := by
  induction actions generalizing s with
  | nil => exact absurd h List.not_mem_nil
  | cons action rest ih =>
      rw [Trace.served_cons]
      rw [deletedRefs, List.mem_append] at h
      rcases h with hnow | hlater
      · exact Trace.served_invariant (fun _ _ _ hgone hstep => gone_step hgone hstep)
          (gone_of_deletedBy hnamed hnow) rest
      · exact ih (Trace.serve_invariant (fun _ _ _ hn hstep => named_step hn hstep) hnamed action)
          hlater

variable (sha256) in
/-- What is expected of one call, after the resources of some names were deleted. -/
structure Meets (deleted : List ManagedResourceRef) (s : ManagedStore) (action : Action) : Prop where
  recreates : ∀ options managedResourceId, action = .putResource options managedResourceId →
    options.ref ∈ deleted → s.db.resources.get? options.ref = none →
      ∃ s' row, s.putResource sha256 options managedResourceId = .ok s' ∧
        s'.db.resources.get? options.ref = some row ∧ row.uid = options.uid ∧ row.generation = 1
  continues : ∀ ref row row', s.db.resources.get? ref = some row →
    (Trace.serve (step sha256) s action).db.resources.get? ref = some row' → Continues row row'
  deletes : ∀ ref version claim now s', action = .deleteResource ref version claim now →
    s.deleteResource sha256 ref version claim now = .ok (true, s') →
      ∃ row, s.db.resources.get? ref = some row ∧ row.deletionRequestedAt ≠ none ∧
        s.finalizersOf ref = []

theorem meets_iff {deleted : List ManagedResourceRef} {action : Action}
    (hgone : ∀ ref ∈ deleted, Gone sha256 s ref) :
    Meets sha256 deleted s action ↔
      ∀ options managedResourceId, action = .putResource options managedResourceId →
        options.ref ∉ deleted := by
  constructor
  · intro hmeets options managedResourceId hput hdeleted
    obtain ⟨s', _, hok, -⟩ :=
      hmeets.recreates options managedResourceId hput hdeleted (hgone _ hdeleted).1
    exact putResource_gone (hgone _ hdeleted) hok
  · intro hnever
    refine ⟨fun options managedResourceId hput hdeleted =>
      absurd hdeleted (hnever options managedResourceId hput), fun ref row row' hrow hrow' => ?_,
      fun ref version claim now s' _ hdelete => ?_⟩
    · unfold Trace.serve at hrow'
      split at hrow'
      · next s' hstep =>
          have hchange := (step_ok hstep).1 ref
          rw [hrow, hrow'] at hchange
          cases hchange with
          | kept h => exact h
      · obtain rfl := Option.some.inj (hrow.symm.trans hrow')
        exact .refl row
    · rcases deleteResource_ok hdelete with ⟨hfalse, -⟩ | ⟨-, -, hrow⟩
      · cases hfalse
      · exact hrow

/-- In a run every call does what is expected of it exactly if no name is put after
its resource was deleted. -/
theorem resourceLives_iff (sha256 : String → String) (projectId : String) (actions : List Action) :
    (∀ before action after, actions = before ++ action :: after →
        Meets sha256 (deletedRefs sha256 (empty projectId) before) (run sha256 projectId before)
          action) ↔
      ∀ before options managedResourceId after,
        actions = before ++ .putResource options managedResourceId :: after →
          options.ref ∉ deletedRefs sha256 (empty projectId) before := by
  have hgone : ∀ before : List Action, ∀ ref ∈ deletedRefs sha256 (empty projectId) before,
      Gone sha256 (run sha256 projectId before) ref :=
    fun before ref hdeleted => gone_of_deletedRefs (fun _ _ hrow => nomatch hrow) hdeleted
  constructor
  · intro hmeets before options managedResourceId after hactions
    exact (meets_iff (hgone before)).1 (hmeets before _ after hactions) options managedResourceId rfl
  · rintro hnever before action after hactions
    refine (meets_iff (hgone before)).2 fun options managedResourceId hput => ?_
    subst hput
    exact hnever before options managedResourceId after hactions

/-! ## Leases -/

/-- A call that gives no new lease and takes no generation back. -/
structure SameLeases (db db' : ResourceDb) : Prop where
  isSome : ∀ ref, (db'.leases.get? ref).isSome = (db.leases.get? ref).isSome
  generation : ∀ ref, (db.cell ref).generation ≤ (db'.cell ref).generation

theorem SameLeases.of_eq {db db' : ResourceDb} (h : db'.leases = db.leases) : SameLeases db db' := by
  refine ⟨fun ref => by rw [h], fun ref => Nat.le_of_eq ?_⟩
  rw [ResourceDb.cell, ResourceDb.cell, h]

/-- Leases are only ever inserted with a resource. -/
theorem isSome_leases_step {db db' : ResourceDb} {action : ResourceDb.Action}
    (hput : ∀ options, action ≠ .putResource options) (h : db.step sha256 action = .ok db')
    (ref : ManagedResourceRef) : (db'.leases.get? ref).isSome = (db.leases.get? ref).isSome := by
  have hsettle : ∀ {claim : ResourceClaim} {requeue : Option RequeueOptions} {now : Int}
      {accepted : Bool} {db' : ResourceDb},
      db.settleResourceManagerClaim sha256 claim requeue now = .ok (accepted, db') →
        (db'.leases.get? ref).isSome = (db.leases.get? ref).isSome := by
    intro claim requeue now accepted db' hsettle
    unfold ResourceDb.settleResourceManagerClaim at hsettle
    split at hsettle
    · obtain rfl := (Prod.mk.inj (Except.ok.inj hsettle)).2
      rfl
    · split at hsettle
      · simp only [bind_ok, Except.ok.injEq, Prod.mk.injEq] at hsettle
        obtain ⟨item, -, -, rfl⟩ := hsettle
        have hleases : (db.settleQueue claim item now requeue).leases = db.leases := by
          unfold ResourceDb.settleQueue
          split
          · split <;> rfl
          · rfl
        show (((db.settleQueue claim item now requeue).leases.update claim.ref
          Lease.release).get? ref).isSome = _
        rw [Table.isSome_get?_update, hleases]
      · obtain rfl := (Prod.mk.inj (Except.ok.inj hsettle)).2
        rfl
  cases action with
  | putResource options => exact absurd rfl (hput options)
  | requestDeletion target now =>
      simp only [ResourceDb.step, ResourceDb.requestDeletion, bind_ok] at h
      obtain ⟨row, -, h⟩ := h
      split at h
      · obtain rfl := Except.ok.inj h
        rfl
      · obtain rfl := Except.ok.inj h
        rfl
  | enqueue target availableAt now =>
      simp only [ResourceDb.step, ResourceDb.enqueue, bind_ok] at h
      obtain ⟨_, -, h⟩ := h
      obtain rfl := Except.ok.inj h
      rfl
  | claimNext options =>
      obtain ⟨⟨given, db'⟩, hclaim, rfl⟩ := map_ok.1 h
      cases given with
      | none => rw [ResourceDb.claimNext_none hclaim]
      | some claim =>
          obtain ⟨_, _, -, -, -, -, -, owner, hleases⟩ := ResourceDb.claimNext_some hclaim
          rw [hleases, Table.isSome_get?_update]
  | renewClaim claim leaseMs now =>
      obtain rfl := Except.ok.inj h
      unfold ResourceDb.renewClaim
      split
      · exact Table.isSome_get?_update _ _ _ _
      · rfl
  | settleClaim claim now =>
      obtain ⟨⟨accepted, _⟩, hcall, rfl⟩ := map_ok.1 h
      exact hsettle hcall
  | requeueClaim claim options now =>
      obtain ⟨⟨accepted, _⟩, hcall, rfl⟩ := map_ok.1 h
      exact hsettle hcall

/-- A call keeps the leases, or gives one to the name of a new resource. -/
theorem step_leases {action : Action} (h : s.step sha256 action = .ok s') :
    SameLeases s.db s'.db ∨ ∃ target, s.aggregates.get? (s.resourceIdOf sha256 target) = none ∧
      (s'.aggregates.get? (s.resourceIdOf sha256 target)).isSome = true ∧
      (∀ ref, ref ≠ target → s'.db.leases.get? ref = s.db.leases.get? ref) ∧
      s.db.leases.get? target = none := by
  have hqueue : ∀ call : ResourceDb.Action, (∀ options, call ≠ .putResource options) →
      s.queueCall sha256 call = .ok s' → SameLeases s.db s'.db := by
    intro call hput hcall
    obtain ⟨db, hstep, rfl⟩ := map_ok.1 hcall
    exact ⟨isSome_leases_step hput hstep, fun ref => (ResourceDb.step_cell hstep ref).generation_le⟩
  cases action with
  | putResource options managedResourceId =>
      rcases putResource_ok h with ⟨-, hfree, hget, -, db, hcreate, heq⟩ | ⟨_, _, _, rfl⟩ | rfl
      · refine .inr ⟨options.ref, hfree, by rw [hget, if_pos rfl]; rfl, ?_, ?_⟩
        all_goals
          simp only [ResourceDb.createResource, bind_ok, orThrow_ok, Except.ok.injEq] at hcreate
          obtain ⟨_, -, leases, hleases, rfl⟩ := hcreate
          obtain ⟨hnone, hinsert⟩ := Table.get?_of_insert? hleases
        · intro ref href
          rw [heq]
          exact (hinsert ref).trans (if_neg href)
        · exact hnone
      · exact .inl (.of_eq rfl)
      · exact .inl (.of_eq rfl)
  | updateStatus options =>
      simp only [step, updateStatus, bind_ok, pure_ok] at h
      obtain ⟨_, -, _, -, _, -, _, -, rfl⟩ := h
      exact .inl (.of_eq rfl)
  | updateFinalizers ref version finalizers =>
      simp only [step, updateFinalizers, bind_ok, pure_ok] at h
      obtain ⟨_, -, _, -, _, -, rfl⟩ := h
      exact .inl (.of_eq rfl)
  | deleteResource ref version claim now =>
      obtain ⟨⟨deleted, _⟩, hdelete, rfl⟩ := map_ok.1 h
      rcases deleteResource_ok hdelete with ⟨-, rfl⟩ | ⟨-, rfl, -⟩
      · exact .inl (.of_eq rfl)
      · exact .inl (.of_eq rfl)
  | recordEvent ref claim now =>
      obtain rfl := recordEvent_ok h
      exact .inl (.of_eq rfl)
  | reserveEffect options =>
      obtain ⟨⟨⟨record, created⟩, _⟩, hreserve, rfl⟩ := map_ok.1 h
      obtain ⟨ref, source, -, -, ⟨-, rfl, -⟩ | ⟨-, -, hcreate, -⟩⟩ := reserveEffect_ok hreserve
      · exact .inl (.of_eq rfl)
      · exact .inl (.of_eq (congrArg ResourceDb.leases (createEffect_ok hcreate).1))
  | updateEffect options =>
      obtain ⟨⟨record, _⟩, hupdate, rfl⟩ := map_ok.1 h
      obtain ⟨_, _, _, _, -, -, -, rfl, -⟩ := updateEffect_ok hupdate
      exact .inl (.of_eq rfl)
  | requestDeletion ref now => exact .inl (hqueue _ (fun _ heq => by cases heq) h)
  | enqueue ref availableAt now => exact .inl (hqueue _ (fun _ heq => by cases heq) h)
  | claimNext options => exact .inl (hqueue _ (fun _ heq => by cases heq) h)
  | renewClaim claim leaseMs now => exact .inl (hqueue _ (fun _ heq => by cases heq) h)
  | settleClaim claim now => exact .inl (hqueue _ (fun _ heq => by cases heq) h)
  | requeueClaim claim options now => exact .inl (hqueue _ (fun _ heq => by cases heq) h)

/-! ## A name that is put again -/

open ResourceDb (jobRef jobOptions jobClaim claimedJob createdJob claimNext_job)

/-- A resource is created, claimed, marked and deleted. -/
def deletionOfJob : List Action :=
  [.putResource ⟨jobRef, .null, .null, 0, "uid-1"⟩ "managed-resource-1", .claimNext jobOptions,
    .requestDeletion jobRef 1, .deleteResource jobRef 3 jobClaim 2]

def createdStore : ManagedStore :=
  run id "project" [.putResource ⟨jobRef, .null, .null, 0, "uid-1"⟩ "managed-resource-1"]

theorem step_createdStore :
    createdStore.step id (.claimNext jobOptions) = .ok { createdStore with db := claimedJob } := by
  have hdb : createdStore.db = createdJob := rfl
  rw [step, queueCall, hdb, ResourceDb.step, claimNext_job]
  rfl

theorem claimNext_createdStore :
    Trace.serve (step id) createdStore (.claimNext jobOptions) =
      { createdStore with db := claimedJob } :=
  Trace.serve_of_ok step_createdStore

/-- Putting it again is refused. -/
theorem putAgain_refused :
    jobRef ∈ deletedRefs id (empty "project") deletionOfJob ∧
      ¬ Meets id (deletedRefs id (empty "project") deletionOfJob) (run id "project" deletionOfJob)
        (.putResource ⟨jobRef, .null, .null, 3, "uid-2"⟩ "managed-resource-2") := by
  have hdeleted : jobRef ∈ deletedRefs id (empty "project") deletionOfJob := by
    have hlast : deletedRefs id { createdStore with db := claimedJob }
        [.requestDeletion jobRef 1, .deleteResource jobRef 3 jobClaim 2] = [jobRef] := rfl
    show jobRef ∈ deletedRefs id (Trace.serve (step id) createdStore (.claimNext jobOptions)) _
    rw [claimNext_createdStore, hlast]
    exact List.mem_singleton_self _
  refine ⟨hdeleted, fun hmeets => ?_⟩
  refine (meets_iff fun ref href => ?_).1 hmeets _ _ rfl hdeleted
  exact gone_of_deletedRefs (fun _ _ hrow => nomatch hrow) href

end ManagedStore

end PiWorkflows
