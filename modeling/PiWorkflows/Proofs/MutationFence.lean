import PiWorkflows.State.Mutation

/-!
# Four fences of a resource

The expected revision, the generation, the token and the expiry of a lease are
compared at different points of different operations. What they come to together
is said once: an operation that is accepted writes the next revision of its
resource and one event under it (`Wrote`), and if it presents a claim then the
lease still has the generation and the owner of the claim (`IsCurrent`).

Generations only grow, and grow with every claim, so a claim that was followed by
another one is never current again. An expired claim is still current until then;
`requireCurrentLease` asks for the time too, except in `release`.
-/

namespace PiWorkflows

open Fallible

namespace MutationStore

variable {σ : Type} {sha256 : String → String} {s s' : MutationStore σ}

/-- The revision of a resource. -/
def revision (s : MutationStore σ) (resourceId : String) : Option Nat :=
  (s.resources.get? resourceId).map ResourceRow.revision

/-- The generation of a lease, zero before there is one. -/
def generation (s : MutationStore σ) (resourceId : String) : Nat :=
  ((s.leases.get? resourceId).map Lease.generation).getD 0

/-- The revisions the events of a resource were written under, in order. -/
def eventRevisions (s : MutationStore σ) (resourceId : String) : List Nat :=
  (s.events.filter fun event => event.resourceId = resourceId).map EventRow.resourceRevision

/-- The next revision of a resource, and its event. -/
structure Wrote (resourceId : String) (s s' : MutationStore σ) : Prop where
  revision : ∃ r, s.revision resourceId = some r ∧ s'.revision resourceId = some (r + 1) ∧
    ∃ event, s'.events = s.events ++ [event] ∧ event.resourceId = resourceId ∧
      event.resourceRevision = r + 1
  others : ∀ j, j ≠ resourceId → s'.revision j = s.revision j ∧ s'.generation j = s.generation j

/-- The lease has the generation and the owner of the claim. -/
def IsCurrent (sha256 : String → String) (s : MutationStore σ) (claim : LeaseClaim) : Prop :=
  ∃ lease owner, s.leases.get? claim.resourceId = some lease ∧ lease.owner = some owner ∧
    lease.generation = claim.generation ∧ isOwnedBy sha256 owner claim = true

/-- The time of the lease's owner is not over. -/
def IsUnexpired (s : MutationStore σ) (resourceId : String) (now : Int) : Prop :=
  ∃ lease owner, s.leases.get? resourceId = some lease ∧ lease.owner = some owner ∧
    now < owner.expiresAt

/-- The claim an operation presents. -/
def Action.lease : Action σ → Option LeaseClaim
  | .renew held _ _ _ _ | .release held _ _ _ => some held
  | .mutate permit _ _ _ _ _ => permit.lease
  | .ensureResource _ _ _ | .claim _ => none

def Action.now : Action σ → Int
  | .ensureResource _ _ now | .renew _ _ _ now _ | .release _ _ now _ | .mutate _ _ _ _ now _ => now
  | .claim options => options.now

def Action.IsRelease : Action σ → Prop
  | .release _ _ _ _ => True
  | _ => False

/-- The resource an operation writes to. -/
def Action.target : Action σ → Option String
  | .ensureResource _ _ _ => none
  | .claim options => some options.resourceId
  | .renew held _ _ _ _ | .release held _ _ _ => some held.resourceId
  | .mutate permit _ _ _ _ _ => some permit.resourceId

/-- The claim an answer hands out. -/
def Reply.claim : Reply → Option LeaseClaim
  | .claimed given => given
  | .ensured _ | .renewed _ | .released _ | .mutated _ => none

/-- What an accepted operation has done. -/
structure Performed (sha256 : String → String) (action : Action σ) (reply : Reply)
    (s s' : MutationStore σ) : Prop where
  wrote : ∀ resourceId, action.target = some resourceId → reply ≠ .claimed none →
    Wrote resourceId s s'
  refused : reply = .claimed none → s' = s
  claims : ∀ claim, reply.claim = some claim →
    action.target = some claim.resourceId ∧ claim.generation = s.generation claim.resourceId + 1 ∧
      s'.generation claim.resourceId = s.generation claim.resourceId + 1
  generation : reply.claim = none → ∀ j, s'.generation j = s.generation j
  held : ∀ claim, action.lease = some claim →
    IsCurrent sha256 s claim ∧ action.target = some claim.resourceId
  live : ∀ claim, action.lease = some claim → ¬ action.IsRelease →
    s.IsUnexpired claim.resourceId action.now

/-! ## The parts of an operation -/

theorem requireResource_ok {resourceId : String} {row : ResourceRow} :
    s.requireResource resourceId = .ok row ↔ s.resources.get? resourceId = some row := by
  rw [requireResource, orThrow_ok]

theorem requireLease_ok {resourceId : String} {lease : Lease} :
    s.requireLease resourceId = .ok lease ↔ s.leases.get? resourceId = some lease := by
  rw [requireLease, orThrow_ok]

theorem requireCurrentLease_ok {claim : LeaseClaim} {now : Int} {requireUnexpired : Bool} {u : Unit}
    (h : s.requireCurrentLease sha256 claim now requireUnexpired = .ok u) :
    IsCurrent sha256 s claim ∧ (requireUnexpired = true → s.IsUnexpired claim.resourceId now) := by
  simp only [requireCurrentLease, bind_ok, requireLease_ok, require_ok] at h
  obtain ⟨lease, hlease, hgeneration, howner⟩ := h
  obtain ⟨owner, howner, hheld⟩ := (Option.any_eq_true _ _).1 howner
  rw [Bool.and_eq_true, Bool.or_eq_true] at hheld
  refine ⟨⟨lease, owner, hlease, howner, hgeneration, hheld.1⟩, fun hlive => ?_⟩
  rw [hlive] at hheld
  exact ⟨lease, owner, hlease, howner, of_decide_eq_true (hheld.2.resolve_left Bool.false_ne_true)⟩

theorem insertEvent_ok {event : EventRow} (h : s.insertEvent sha256 event = .ok s') :
    s'.resources = s.resources ∧ s'.leases = s.leases ∧ s'.events = s.events ++ [event] := by
  simp only [insertEvent, bind_ok, require_ok, Except.ok.injEq] at h
  obtain ⟨blobs, _, _, _, _, _, _, _, rfl⟩ := h
  exact ⟨rfl, rfl, rfl⟩

/-- The end of every operation: the next revision, one event, and the lease as `f`
leaves it. -/
theorem wrote_of_insertEvent {resourceId : String} {row : ResourceRow} {now : Int}
    {f : Lease → Lease} {event : EventRow} {blobs : StateDatabase String} {tables : σ}
    (hrow : s.resources.get? resourceId = some row)
    (hevent : event.resourceId = resourceId ∧ event.resourceRevision = row.revision + 1)
    (h : (updateResourceRevision
      { s with leases := s.leases.update resourceId f, blobs, tables } resourceId now).insertEvent
        sha256 event = .ok s') :
    Wrote resourceId s s' ∧
      s'.leases.get? resourceId = (s.leases.get? resourceId).map f := by
  obtain ⟨hresources, hleases, hevents⟩ := insertEvent_ok h
  refine ⟨⟨⟨row.revision, ?_, ?_, event, hevents, hevent⟩, fun j hj => ⟨?_, ?_⟩⟩, ?_⟩
  · rw [revision, hrow, Option.map_some]
  · rw [revision, hresources, updateResourceRevision, Table.get?_update_self, hrow]
    rfl
  · rw [revision, hresources, updateResourceRevision, Table.get?_update_ne hj, revision]
  · rw [generation, hleases, updateResourceRevision, Table.get?_update_ne hj, generation]
  · rw [hleases, updateResourceRevision, Table.get?_update_self]

theorem generation_of_lease {resourceId : String} {f : Lease → Lease}
    (h : s'.leases.get? resourceId = (s.leases.get? resourceId).map f)
    (hf : ∀ lease, (f lease).generation = lease.generation) :
    s'.generation resourceId = s.generation resourceId := by
  rw [generation, h, generation]
  cases s.leases.get? resourceId with
  | none => rfl
  | some lease => exact hf lease

/-- An operation that leaves the generation of its resource alone leaves all alone. -/
theorem Wrote.generation {resourceId : String} (h : Wrote resourceId s s')
    (hsame : s'.generation resourceId = s.generation resourceId) (j : String) :
    s'.generation j = s.generation j := by
  by_cases hj : j = resourceId
  · rw [hj, hsame]
  · exact (h.others j hj).2

/-! ## The operations -/

theorem ensureResource_performed {type : ResourceType} {aggregateKey resourceId : String} {now : Int}
    (h : s.ensureResource sha256 type aggregateKey now = .ok (resourceId, s')) :
    (∀ j r, s.revision j = some r → s'.revision j = some r) ∧
      (∀ j, s.revision j = none → s'.revision j = none ∨ s'.revision j = some 0) ∧
      (∀ j, s'.generation j = s.generation j) ∧ s'.events = s.events := by
  simp only [ensureResource, insertResource, bind_ok, require_ok, orThrow_ok, Except.ok.injEq,
    Prod.mk.injEq] at h
  obtain ⟨resources, ⟨_, _, hresources⟩, _, _, _, _, rfl, rfl⟩ := h
  refine ⟨?_, ?_, fun j => ?_, rfl⟩
  · intro j r hrow
    split at hresources
    · obtain rfl := Except.ok.inj hresources
      exact hrow
    · obtain ⟨hfree, hget⟩ := Table.get?_of_insert? (orThrow_ok.1 hresources)
      rw [revision, hget j, if_neg]
      · exact hrow
      · rintro rfl
        rw [revision, hfree] at hrow
        cases hrow
  · intro j hrow
    split at hresources
    · obtain rfl := Except.ok.inj hresources
      exact .inl hrow
    · obtain ⟨-, hget⟩ := Table.get?_of_insert? (orThrow_ok.1 hresources)
      rw [revision, hget j]
      split
      · exact .inr rfl
      · exact .inl hrow
  · rw [generation, generation, Table.get?_insert?_getD]
    split
    · next hj =>
        rw [hj]
        cases s.leases.get? (resourceIdFor sha256 type aggregateKey) <;> rfl
    · rfl

theorem claim_performed {options : ClaimOptions} {given : Option LeaseClaim}
    (h : s.claim sha256 options = .ok (given, s')) :
    Performed sha256 (.claim options) (.claimed given) s s' := by
  simp only [claim, bind_ok, require_ok, requireResource_ok, requireLease_ok] at h
  obtain ⟨_, _, row, hrow, _, _, lease, hlease, h⟩ := h
  split at h
  · obtain ⟨rfl, rfl⟩ := Prod.mk.inj (Except.ok.inj h)
    exact ⟨fun _ _ hreply => absurd rfl hreply, fun _ => rfl, by rintro _ ⟨⟩, fun _ _ => rfl,
      by rintro _ ⟨⟩, by rintro _ ⟨⟩⟩
  · simp only [claimFree, bind_ok, Except.ok.injEq, Prod.mk.injEq] at h
    obtain ⟨written, hinsert, rfl, rfl⟩ := h
    obtain ⟨hwrote, hleases⟩ := wrote_of_insertEvent hrow ⟨rfl, rfl⟩ hinsert
    have hgeneration : s.generation options.resourceId = lease.generation := by
      rw [generation, hlease]
      rfl
    refine ⟨?_, by rintro ⟨⟩, ?_, by rintro ⟨⟩, by rintro _ ⟨⟩, by rintro _ ⟨⟩⟩
    · rintro resourceId htarget -
      obtain rfl := Option.some.inj htarget
      exact hwrote
    · rintro claimed hclaimed
      obtain rfl := Option.some.inj hclaimed
      refine ⟨rfl, congrArg (· + 1) hgeneration.symm, ?_⟩
      rw [generation, hleases, hlease, hgeneration]
      rfl

theorem renew_performed {held claimed : LeaseClaim} {expectedRevision : Nat} {leaseMs now : Int}
    {eventId : String}
    (h : s.renew sha256 held expectedRevision leaseMs now eventId = .ok (claimed, s')) :
    Performed sha256 (.renew held expectedRevision leaseMs now eventId) (.renewed claimed) s s' := by
  simp only [renew, bind_ok, require_ok, requireResource_ok, Except.ok.injEq, Prod.mk.injEq] at h
  obtain ⟨row, hrow, _, _, _, hcurrent, written, hinsert, rfl, rfl⟩ := h
  obtain ⟨hcurrent, hlive⟩ := requireCurrentLease_ok hcurrent
  obtain ⟨hwrote, hleases⟩ := wrote_of_insertEvent hrow ⟨rfl, rfl⟩ hinsert
  refine ⟨?_, by rintro ⟨⟩, by rintro _ ⟨⟩, fun _ => ?_, ?_, ?_⟩
  · rintro resourceId htarget -
    obtain rfl := Option.some.inj htarget
    exact hwrote
  · exact hwrote.generation (generation_of_lease hleases fun _ => rfl)
  · rintro claim hclaim
    obtain rfl := Option.some.inj hclaim
    exact ⟨hcurrent, rfl⟩
  · rintro claim hclaim -
    obtain rfl := Option.some.inj hclaim
    exact hlive rfl

theorem release_performed {held : LeaseClaim} {expectedRevision r : Nat} {now : Int}
    {eventId : String}
    (h : s.release sha256 held expectedRevision now eventId = .ok (r, s')) :
    Performed sha256 (.release held expectedRevision now eventId) (.released r) s s' := by
  simp only [release, bind_ok, require_ok, requireResource_ok, Except.ok.injEq, Prod.mk.injEq] at h
  obtain ⟨row, hrow, _, _, _, hcurrent, written, hinsert, rfl, rfl⟩ := h
  obtain ⟨hwrote, hleases⟩ := wrote_of_insertEvent hrow ⟨rfl, rfl⟩ hinsert
  refine ⟨?_, by rintro ⟨⟩, by rintro _ ⟨⟩, fun _ => ?_, ?_,
    fun _ _ hother => absurd trivial hother⟩
  · rintro resourceId htarget -
    obtain rfl := Option.some.inj htarget
    exact hwrote
  · exact hwrote.generation (generation_of_lease hleases fun _ => rfl)
  · rintro claim hclaim
    obtain rfl := Option.some.inj hclaim
    exact ⟨(requireCurrentLease_ok hcurrent).1, rfl⟩

theorem checkPermit_ok {permit : WritePermit} {now : Int} {u : Unit}
    (h : s.checkPermit sha256 permit now = .ok u) (held : LeaseClaim)
    (hheld : permit.lease = some held) :
    held.resourceId = permit.resourceId ∧ IsCurrent sha256 s held ∧
      s.IsUnexpired held.resourceId now := by
  rw [checkPermit, hheld] at h
  simp only [bind_ok, require_ok] at h
  obtain ⟨_, hof, hcurrent⟩ := h
  obtain ⟨hcurrent, hlive⟩ := requireCurrentLease_ok hcurrent
  exact ⟨hof, hcurrent, hlive rfl⟩

theorem mutate_performed {permit : WritePermit} {eventType : String} {apply : Apply σ}
    {payload : Option Json} {now : Int} {eventId : String} {result : MutationResult}
    (h : s.mutate sha256 permit eventType apply payload now eventId = .ok (result, s')) :
    Performed sha256 (.mutate permit eventType apply payload now eventId) (.mutated result) s s' := by
  simp only [mutate, bind_ok, require_ok, requireResource_ok, Except.ok.injEq, Prod.mk.injEq,
    Prod.exists] at h
  obtain ⟨row, hrow, _, _, _, hpermit, value, tables, blobs, _, written, hinsert, rfl, rfl⟩ := h
  obtain ⟨hresources, hleases, hevents⟩ := insertEvent_ok hinsert
  have hkept : (updateResourceRevision { s with tables, blobs } permit.resourceId now).leases =
      s.leases := rfl
  refine ⟨?_, by rintro ⟨⟩, by rintro _ ⟨⟩, fun _ j => ?_, ?_, ?_⟩
  · rintro resourceId htarget -
    obtain rfl := Option.some.inj htarget
    refine ⟨⟨row.revision, ?_, ?_, _, hevents, rfl, rfl⟩, fun j hj => ⟨?_, ?_⟩⟩
    · rw [revision, hrow, Option.map_some]
    · rw [revision, hresources, updateResourceRevision, Table.get?_update_self, hrow]
      rfl
    · rw [revision, hresources, updateResourceRevision, Table.get?_update_ne hj, revision]
    · rw [generation, hleases, hkept, generation]
  · rw [generation, hleases, hkept, generation]
  · rintro claim hclaim
    obtain ⟨hof, hcurrent, -⟩ := checkPermit_ok hpermit claim hclaim
    exact ⟨hcurrent, congrArg some hof.symm⟩
  · rintro claim hclaim -
    exact (checkPermit_ok hpermit claim hclaim).2.2

theorem act_performed {action : Action σ} {reply : Reply}
    (h : s.act sha256 action = .ok (reply, s')) : Performed sha256 action reply s s' := by
  cases action with
  | ensureResource type aggregateKey now =>
      obtain ⟨⟨resourceId, t⟩, hensure, heq⟩ := map_ok.1 h
      obtain ⟨rfl, rfl⟩ := Prod.mk.inj heq
      exact ⟨nofun, nofun, nofun, fun _ => (ensureResource_performed hensure).2.2.1, nofun, nofun⟩
  | claim options =>
      obtain ⟨⟨given, t⟩, hclaim, heq⟩ := map_ok.1 h
      obtain ⟨rfl, rfl⟩ := Prod.mk.inj heq
      exact claim_performed hclaim
  | renew held expectedRevision leaseMs now eventId =>
      obtain ⟨⟨claimed, t⟩, hrenew, heq⟩ := map_ok.1 h
      obtain ⟨rfl, rfl⟩ := Prod.mk.inj heq
      exact renew_performed hrenew
  | release held expectedRevision now eventId =>
      obtain ⟨⟨r, t⟩, hrelease, heq⟩ := map_ok.1 h
      obtain ⟨rfl, rfl⟩ := Prod.mk.inj heq
      exact release_performed hrelease
  | mutate permit eventType apply payload now eventId =>
      obtain ⟨⟨result, t⟩, hmutate, heq⟩ := map_ok.1 h
      obtain ⟨rfl, rfl⟩ := Prod.mk.inj heq
      exact mutate_performed hmutate

theorem step_ok {action : Action σ} (h : s.step sha256 action = .ok s') :
    ∃ reply, s.act sha256 action = .ok (reply, s') := by
  obtain ⟨⟨reply, t⟩, hact, rfl⟩ := map_ok.1 h
  exact ⟨reply, hact⟩

/-! ## Runs -/

theorem Performed.generation_le {action : Action σ} {reply : Reply}
    (h : Performed sha256 action reply s s') (j : String) : s.generation j ≤ s'.generation j := by
  cases hclaim : reply.claim with
  | none => exact (h.generation hclaim j).ge
  | some claim =>
      obtain ⟨htarget, -, hnext⟩ := h.claims claim hclaim
      by_cases hj : j = claim.resourceId
      · rw [hj, hnext]
        exact Nat.le_succ _
      · have hgiven : reply ≠ .claimed none := by
          rintro rfl
          cases hclaim
        exact ((h.wrote _ htarget hgiven).others j hj).2.ge

variable (sha256) in
/-- Generations never decrease. -/
theorem run_generation_le (s : MutationStore σ) (actions : List (Action σ)) (j : String) :
    s.generation j ≤ (s.run sha256 actions).generation j :=
  Trace.served_related (R := fun t t' : MutationStore σ => t.generation j ≤ t'.generation j)
    (fun _ => Nat.le_refl _) Nat.le_trans (fun _ _ _ (_ : True) _ => trivial)
    (fun _ _ _ _ h => by
      obtain ⟨reply, hact⟩ := step_ok h
      exact (act_performed hact).generation_le j) trivial actions

/-- The events of every resource are under its revisions, each once and in order. -/
def Logged (s : MutationStore σ) : Prop :=
  ∀ j, s.eventRevisions j = List.range' 1 ((s.revision j).getD 0)

theorem eventRevisions_append (event : EventRow) (h : s'.events = s.events ++ [event]) (j : String) :
    s'.eventRevisions j = s.eventRevisions j ++
      (if event.resourceId = j then [event.resourceRevision] else []) := by
  rw [eventRevisions, h, List.filter_append, List.map_append, eventRevisions, List.filter_singleton]
  by_cases hj : event.resourceId = j
  · simp [hj]
  · simp [hj]

theorem Wrote.logged {resourceId : String} (h : Wrote resourceId s s') (hlogged : Logged s) :
    Logged s' := by
  obtain ⟨r, hrevision, hnext, event, hevents, hof, hunder⟩ := h.revision
  intro j
  rw [eventRevisions_append event hevents, hlogged j]
  by_cases hj : j = resourceId
  · rw [hj, if_pos hof, hrevision, hnext, hunder, Option.getD_some, Option.getD_some,
      List.range'_concat, Nat.add_comm r 1, Nat.one_mul]
  · have hne : event.resourceId ≠ j := fun heq => hj (heq.symm.trans hof)
    rw [if_neg hne, List.append_nil, (h.others j hj).1]

theorem step_logged {action : Action σ} (hlogged : Logged s) (h : s.step sha256 action = .ok s') :
    Logged s' := by
  obtain ⟨reply, hact⟩ := step_ok h
  have hperformed := act_performed hact
  cases htarget : action.target with
  | some resourceId =>
      by_cases hrefused : reply = .claimed none
      · rw [hperformed.refused hrefused]
        exact hlogged
      · exact (hperformed.wrote resourceId htarget hrefused).logged hlogged
  | none =>
      cases action with
      | ensureResource type aggregateKey now =>
          obtain ⟨⟨resourceId, t⟩, hensure, heq⟩ := map_ok.1 hact
          obtain ⟨-, rfl⟩ := Prod.mk.inj heq
          obtain ⟨hold, hnew, -, hevents⟩ := ensureResource_performed hensure
          intro j
          rw [eventRevisions, hevents]
          refine (hlogged j).trans (congrArg (List.range' 1) ?_)
          cases hrevision : s.revision j with
          | some r => rw [hold j r hrevision]
          | none => rcases hnew j hrevision with hsame | hzero <;> simp [*]
      | claim | renew | release | mutate => cases htarget

theorem logged_fresh (blobs : StateDatabase String) (tables : σ) : Logged (fresh blobs tables) :=
  fun _ => rfl

theorem run_logged (hlogged : Logged s) (actions : List (Action σ)) :
    Logged (s.run sha256 actions) :=
  Trace.served_invariant (fun _ _ _ hlogged h => step_logged hlogged h) hlogged actions

/-! ## Stale claims -/

/-- Claims that are current at the same time are one. -/
theorem IsCurrent.unique (hsha256 : Function.Injective sha256) {claim claim' : LeaseClaim}
    (h : IsCurrent sha256 s claim) (h' : IsCurrent sha256 s claim')
    (hsame : claim.resourceId = claim'.resourceId) :
    claim.token = claim'.token ∧ claim.generation = claim'.generation := by
  obtain ⟨lease, owner, hlease, howner, hgeneration, howned⟩ := h
  obtain ⟨lease', owner', hlease', howner', hgeneration', howned'⟩ := h'
  rw [hsame, hlease'] at hlease
  obtain rfl := Option.some.inj hlease
  rw [howner'] at howner
  obtain rfl := Option.some.inj howner
  obtain ⟨-, -, htoken⟩ := of_decide_eq_true howned
  obtain ⟨-, -, htoken'⟩ := of_decide_eq_true howned'
  exact ⟨hsha256 (htoken.symm.trans htoken'), hgeneration.symm.trans hgeneration'⟩

theorem IsCurrent.generation {claim : LeaseClaim} (h : IsCurrent sha256 s claim) :
    s.generation claim.resourceId = claim.generation := by
  obtain ⟨lease, owner, hlease, -, hgeneration, -⟩ := h
  rw [MutationStore.generation, hlease]
  exact hgeneration

/-- An operation under a claim that is not current throws. -/
theorem act_error {action : Action σ} {held : LeaseClaim} (hheld : action.lease = some held)
    (hstale : ¬ IsCurrent sha256 s held) : ∃ message, s.act sha256 action = .error message := by
  cases hact : s.act sha256 action with
  | error message => exact ⟨message, rfl⟩
  | ok r => exact absurd ((act_performed hact).held held hheld).1 hstale

/-- Another claim on the resource, at any time after the one that is held. -/
theorem superseded {action : Action σ} {reply : Reply} {given : LeaseClaim}
    (hact : s.act sha256 action = .ok (reply, s')) (hgiven : reply.claim = some given)
    (more : List (Action σ)) {held : LeaseClaim} (hof : held.resourceId = given.resourceId)
    (hold : held.generation < given.generation) : ¬ IsCurrent sha256 (s'.run sha256 more) held := by
  intro hcurrent
  obtain ⟨-, hgeneration, hnext⟩ := (act_performed hact).claims given hgiven
  have hle := run_generation_le sha256 s' more given.resourceId
  have heq := hcurrent.generation
  rw [hof] at heq
  omega

/-- Every run of a store: the log of each resource lists its revisions, operations
write exactly one of them, generations count the claims, and a claim that another
one followed is refused for ever, while one that expired can only be released. -/
theorem mutationRun_fenced (hsha256 : Function.Injective sha256) (blobs : StateDatabase String)
    (tables : σ) (actions : List (Action σ)) :
    (∀ j, (run sha256 (fresh blobs tables) actions).eventRevisions j =
        List.range' 1 (((run sha256 (fresh blobs tables) actions).revision j).getD 0)) ∧
      (∀ action reply s', (run sha256 (fresh blobs tables) actions).act sha256 action = .ok (reply, s') →
        Performed sha256 action reply (run sha256 (fresh blobs tables) actions) s' ∧
          (∀ other reply' t held held',
            (run sha256 (fresh blobs tables) actions).act sha256 other = .ok (reply', t) →
            action.lease = some held → other.lease = some held' →
            held.resourceId = held'.resourceId →
              held.token = held'.token ∧ held.generation = held'.generation) ∧
          ∀ given, reply.claim = some given → ∀ more again reply' s'' given',
            (run sha256 s' more).act sha256 again = .ok (reply', s'') →
            reply'.claim = some given' → given'.resourceId = given.resourceId →
            ∀ rest late held, Action.lease late = some held → held.resourceId = given.resourceId →
              held.generation = given.generation →
                ∃ message, (run sha256 s'' rest).act sha256 late = .error message) ∧
      ∀ action message, (run sha256 (fresh blobs tables) actions).act sha256 action = .error message →
        run sha256 (fresh blobs tables) (actions ++ [action]) =
          run sha256 (fresh blobs tables) actions := by
  refine ⟨run_logged (logged_fresh blobs tables) actions, ?_, ?_⟩
  · intro action reply s' hact
    refine ⟨act_performed hact, ?_, ?_⟩
    · intro other reply' t held held' hother hheld hheld' hsame
      exact ((act_performed hact).held held hheld).1.unique hsha256
        ((act_performed hother).held held' hheld').1 hsame
    · intro given hgiven more again reply' s'' given' hagain hgiven' hof rest late held hlate hheld
        hgeneration
      refine act_error hlate (superseded hagain hgiven' rest (hheld.trans hof.symm) ?_)
      -- The second claim has a generation above the one the first claim has made.
      obtain ⟨-, hfirst, hnext⟩ := (act_performed hact).claims given hgiven
      obtain ⟨-, hsecond, -⟩ := (act_performed hagain).claims given' hgiven'
      have hle := run_generation_le sha256 s' more given.resourceId
      rw [hof] at hsecond
      omega
  · intro action message herror
    rw [run, Trace.served_append, Trace.served_cons, Trace.served_nil]
    show Trace.serve _ (run sha256 (fresh blobs tables) actions) action = _
    rw [Trace.serve, step, herror]
    rfl

/-! ## A holder that wakes up late -/

/-- A resource and a claim on it for ten milliseconds. -/
def claimedRun : List (Action Unit) :=
  [.ensureResource .run "run-1" 0,
    .claim ⟨resourceIdFor id .run "run-1", .session, "session-a", 0, 10, 0, "token-a", "event-1"⟩]

/-- The claim that was given out. -/
def firstClaim : LeaseClaim :=
  ⟨resourceIdFor id .run "run-1", .session, "session-a", "token-a", 1, 10, 1⟩

/-- Another owner's claim after the first has expired. -/
def nextClaim : Action Unit :=
  .claim ⟨resourceIdFor id .run "run-1", .server, "server-b", 1, 10, 20, "token-b", "event-2"⟩

theorem nextClaim_rises :
    (∃ s', (run id (fresh .fresh ()) claimedRun).act id nextClaim =
        .ok (.claimed (some ⟨resourceIdFor id .run "run-1", .server, "server-b", "token-b", 2, 30, 2⟩), s') ∧
      s'.generation firstClaim.resourceId = 2) := by
  obtain ⟨s', hact⟩ : ∃ s', (run id (fresh .fresh ()) claimedRun).act id nextClaim =
      .ok (.claimed (some ⟨resourceIdFor id .run "run-1", .server, "server-b", "token-b", 2, 30, 2⟩), s') :=
    ⟨_, rfl⟩
  refine ⟨s', hact, ?_⟩
  obtain ⟨hperformed, -, -⟩ :=
    (mutationRun_fenced Function.injective_id .fresh () claimedRun).2.1 nextClaim _ s' hact
  exact (hperformed.claims _ rfl).2.2

/-- A holder whose lease has expired may still release it, which raises the revision. -/
theorem expiredClaim_releases :
    ¬ ∀ (actions : List (Action Unit)) (action : Action Unit) (held : LeaseClaim),
      action.lease = some held →
        ¬ (run id (fresh .fresh ()) actions).IsUnexpired held.resourceId action.now →
          (run id (fresh .fresh ()) (actions ++ [action])).revision held.resourceId =
            (run id (fresh .fresh ()) actions).revision held.resourceId := by
  intro h
  have hrelease := h claimedRun (.release firstClaim 1 20 "event-2") firstClaim rfl ?_
  · exact absurd hrelease (by decide)
  · rintro ⟨lease, owner, hlease, howner, hlive⟩
    have hfound : (run id (fresh .fresh ()) claimedRun).leases.get? firstClaim.resourceId =
        some ⟨1, some ⟨.session, "session-a", "token-a", 0, 0, 10⟩⟩ := rfl
    rw [hfound] at hlease
    obtain rfl := Option.some.inj hlease
    obtain rfl := Option.some.inj howner
    exact absurd hlive (by decide)

end MutationStore

end PiWorkflows
