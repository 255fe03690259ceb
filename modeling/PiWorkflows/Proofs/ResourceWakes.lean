import PiWorkflows.Lib.Wake
import PiWorkflows.ResourceManagers.Queue

/-!
# Wake-ups of managed resources

A resource with its lease and its queue entry is a cell of work: due at the time
and under the version of the entry, taken under the generation of the lease.
Every call moves the cell of every resource by one step of the library, and is a
wake-up of it exactly for the time the call enqueues it for (`step_cell`).

So a resource that was enqueued while it was claimed is still in the queue when
the claim is settled. When the claim is put back for another time, that time
replaces the one of the wake-up, and the wake-up is on time only if the new time
is not later (`enqueuedClaim_due_iff`).
-/

namespace PiWorkflows

open Fallible Wake

namespace ResourceDb

variable {sha256 : String → String} {db db' : ResourceDb}

/-- A resource as a cell of work. -/
def cell (db : ResourceDb) (ref : ManagedResourceRef) : Cell Int where
  due := (db.queue.get? ref).map fun item => (item.availableAt, item.queueVersion)
  generation := ((db.leases.get? ref).map Lease.generation).getD 0
  held := (db.leases.get? ref).any fun lease => lease.owner.isSome

/-- The resource is in the queue, available at the time or before. -/
def QueuedBy (db : ResourceDb) (ref : ManagedResourceRef) (t : Int) : Prop :=
  ∃ item, db.queue.get? ref = some item ∧ item.availableAt ≤ t

theorem queuedBy_iff {ref : ManagedResourceRef} {t : Int} :
    db.QueuedBy ref t ↔ DueBy t (db.cell ref) := by
  constructor
  · rintro ⟨item, hitem, hle⟩
    exact ⟨item.availableAt, item.queueVersion, by rw [cell, hitem]; rfl, hle⟩
  · rintro ⟨time, version, hdue, hle⟩
    obtain ⟨item, hitem, heq⟩ := Option.map_eq_some_iff.1 hdue
    obtain ⟨rfl, rfl⟩ := Prod.mk.inj heq
    exact ⟨item, hitem, hle⟩

theorem cell_congr {ref : ManagedResourceRef} (hleases : db'.leases.get? ref = db.leases.get? ref)
    (hqueue : db'.queue.get? ref = db.queue.get? ref) : db'.cell ref = db.cell ref := by
  rw [cell, hleases, hqueue, cell]

@[simp] theorem cell_bumpResource (target ref : ManagedResourceRef) :
    (db.bumpResource target).cell ref = db.cell ref := rfl

theorem cell_enqueue (target ref : ManagedResourceRef) (availableAt now : Int) :
    (db.enqueueResourceManagerRow target availableAt now).cell ref =
      if ref = target then ⟨wakeDue availableAt (db.cell ref).due, (db.cell ref).generation,
        (db.cell ref).held⟩
      else db.cell ref := by
  have hqueue := Table.get?_insert?_getD_update db.queue target ref
    { availableAt, createdAt := now, updatedAt := now } fun item =>
      { item with
        availableAt := min item.availableAt availableAt
        queueVersion := item.queueVersion + 1
        updatedAt := now }
  split
  · next heq =>
      rw [if_pos heq, ← heq] at hqueue
      rw [cell, enqueueResourceManagerRow, ← heq, hqueue, cell]
      cases db.queue.get? ref <;> rfl
  · next hne =>
      rw [if_neg hne] at hqueue
      exact cell_congr rfl hqueue

/-- A call that enqueues one resource and touches no queue entry or lease before. -/
theorem step_enqueue {target : ManagedResourceRef} {availableAt now : Int} {mid : ResourceDb}
    (hcell : ∀ ref, mid.cell ref = db.cell ref) (ref : ManagedResourceRef) :
    Step (if target = ref then some availableAt else none) (db.cell ref)
      ((mid.enqueueResourceManagerRow target availableAt now).cell ref) := by
  rw [cell_enqueue, hcell ref]
  by_cases h : ref = target
  · rw [if_pos h.symm, if_pos h]
    exact .wake availableAt _
  · rw [if_neg (Ne.symm h), if_neg h]
    exact .keep _

/-- A call that changes the lease and the queue entry of one resource. -/
theorem step_at (target : ManagedResourceRef)
    (hothers : ∀ ref, ref ≠ target → db'.cell ref = db.cell ref)
    (htarget : Step none (db.cell target) (db'.cell target)) (ref : ManagedResourceRef) :
    Step none (db.cell ref) (db'.cell ref) := by
  by_cases h : ref = target
  · rw [h]
    exact htarget
  · rw [hothers ref h]
    exact .keep _

/-! ## Producers -/

theorem createResource_cell {options : PutOptions} (h : db.createResource options = .ok db')
    (ref : ManagedResourceRef) :
    Step (if options.ref = ref then some options.now else none) (db.cell ref) (db'.cell ref) := by
  simp only [createResource, bind_ok, orThrow_ok, Except.ok.injEq] at h
  obtain ⟨resources, _, leases, hleases, rfl⟩ := h
  refine step_enqueue (fun j => ?_) ref
  -- A new lease has nobody and no generation, like no lease.
  obtain ⟨hfree, hget⟩ := Table.get?_of_insert? hleases
  by_cases hj : j = options.ref
  · rw [cell, cell, hget j, if_pos hj, hj, hfree]
    rfl
  · exact cell_congr (by rw [hget j, if_neg hj]) rfl

theorem putResource_cell {options : PutOptions} (h : db.putResource sha256 options = .ok db')
    (ref : ManagedResourceRef) :
    Step (db.wakeTime sha256 ref (.putResource options)) (db.cell ref) (db'.cell ref) := by
  simp only [putResource, bind_ok] at h
  obtain ⟨_, _, _, _, h⟩ := h
  unfold wakeTime
  dsimp only
  split at h
  · next hnone =>
      have hstep := createResource_cell h ref
      by_cases href : options.ref = ref
      · subst href
        rw [if_pos ⟨rfl, by rw [hnone]; rfl⟩]
        rwa [if_pos rfl] at hstep
      · rw [if_neg (fun hand => href hand.1)]
        rwa [if_neg href] at hstep
  · next existing hexisting =>
      split at h
      · next hchanged =>
          obtain rfl := Except.ok.inj h
          have hstep : Step (if options.ref = ref then some options.now else none) (db.cell ref)
              (((bumpResource { db with
                  resources := db.resources.update options.ref fun row =>
                    { row with spec := storedJson options.spec, generation := row.generation + 1 } }
                options.ref).enqueueResourceManagerRow options.ref options.now options.now).cell
                ref) :=
            step_enqueue (fun _ => rfl) ref
          by_cases href : options.ref = ref
          · subst href
            rw [if_pos ⟨rfl, by rw [hexisting]; exact hchanged⟩]
            rwa [if_pos rfl] at hstep
          · rw [if_neg (fun hand => href hand.1)]
            rwa [if_neg href] at hstep
      · next hsame =>
          obtain rfl := Except.ok.inj h
          rw [if_neg]
          · exact .keep _
          · rintro ⟨rfl, hall⟩
            rw [hexisting] at hall
            exact hsame hall

theorem requestDeletion_cell {target : ManagedResourceRef} {now : Int}
    (h : db.requestDeletion target now = .ok db') (ref : ManagedResourceRef) :
    Step (db.wakeTime sha256 ref (.requestDeletion target now)) (db.cell ref) (db'.cell ref) := by
  simp only [requestDeletion, requireResourceManagerRow, bind_ok, orThrow_ok] at h
  obtain ⟨row, hrow, h⟩ := h
  unfold wakeTime
  dsimp only
  split at h
  · next hnew =>
      obtain rfl := Except.ok.inj h
      by_cases href : target = ref
      · subst href
        rw [if_pos ⟨rfl, by rw [hrow]; exact decide_eq_true hnew⟩, cell_enqueue, if_pos rfl]
        exact .wake now _
      · rw [if_neg (fun hand => href hand.1), cell_enqueue, if_neg (Ne.symm href)]
        exact .keep _
  · next hold =>
      obtain rfl := Except.ok.inj h
      rw [if_neg]
      · exact .keep _
      · rintro ⟨rfl, hany⟩
        rw [hrow] at hany
        exact hold (of_decide_eq_true hany)

theorem enqueue_cell {target : ManagedResourceRef} {availableAt : Option Int} {now : Int}
    (h : db.enqueue target availableAt now = .ok db') (ref : ManagedResourceRef) :
    Step (db.wakeTime sha256 ref (.enqueue target availableAt now)) (db.cell ref) (db'.cell ref) := by
  simp only [enqueue, bind_ok, Except.ok.injEq] at h
  obtain ⟨_, _, rfl⟩ := h
  exact step_enqueue (fun _ => rfl) ref

/-! ## Workers -/

theorem nextClaimable_some {options : ClaimOptions} {ref : ManagedResourceRef}
    {item : ResourceQueueRow} (h : db.nextClaimable options = some (ref, item)) :
    db.queue.get? ref = some item ∧ db.isClaimable options ref item = true := by
  have hmem := List.mem_of_mem_head? (Option.mem_def.2 h)
  rw [List.mem_mergeSort, List.mem_filter] at hmem
  exact ⟨Table.mem_rows.1 hmem.1, hmem.2⟩

/-- A claim that is given sees the queue entry and has the next generation. -/
theorem claimNext_some {options : ClaimOptions} {claim : ResourceClaim}
    (h : db.claimNext sha256 options = .ok (some claim, db')) :
    ∃ item lease, db.queue.get? claim.ref = some item ∧ db.leases.get? claim.ref = some lease ∧
      claim.queueVersion = item.queueVersion ∧ claim.generation = lease.generation + 1 ∧
      db'.queue = db.queue ∧ ∃ owner, db'.leases =
        db.leases.update claim.ref fun lease => lease.claim owner := by
  unfold claimNext at h
  split at h
  · cases h
  · next ref item hnext =>
      simp only [requireResourceManagerRow, requireLease, bind_ok, orThrow_ok, Except.ok.injEq,
        Prod.mk.injEq, Option.some.injEq] at h
      obtain ⟨row, _, lease, hlease, rfl, rfl⟩ := h
      exact ⟨item, lease, (nextClaimable_some hnext).1, hlease, rfl, rfl, rfl, _, rfl⟩

theorem claimNext_none {options : ClaimOptions}
    (h : db.claimNext sha256 options = .ok (none, db')) : db' = db := by
  unfold claimNext at h
  split at h
  · exact (Prod.mk.inj (Except.ok.inj h)).2.symm
  · simp only [bind_ok, Except.ok.injEq, Prod.mk.injEq] at h
    obtain ⟨_, _, _, _, hnone, -⟩ := h
    cases hnone

theorem cell_claimed {claim : ResourceClaim} {lease : Lease} {owner : LeaseOwner}
    (hlease : db.leases.get? claim.ref = some lease) (hqueue : db'.queue = db.queue)
    (hleases : db'.leases = db.leases.update claim.ref fun lease => lease.claim owner) :
    db'.cell claim.ref = ⟨(db.cell claim.ref).due, (db.cell claim.ref).generation + 1, true⟩ := by
  rw [cell, hleases, hqueue, Table.get?_update_self, cell, hlease]
  rfl

theorem claimNext_cell {options : ClaimOptions} {given : Option ResourceClaim}
    (h : db.claimNext sha256 options = .ok (given, db')) (ref : ManagedResourceRef) :
    Step none (db.cell ref) (db'.cell ref) := by
  cases given with
  | none =>
      rw [claimNext_none h]
      exact .keep _
  | some claim =>
      obtain ⟨item, lease, hitem, hlease, -, -, hqueue, owner, hleases⟩ := claimNext_some h
      refine step_at claim.ref (fun j hj => ?_) ?_ ref
      · exact cell_congr (by rw [hleases, Table.get?_update_ne hj]) (by rw [hqueue])
      · rw [cell_claimed hlease hqueue hleases]
        refine .take _ ?_
        rw [cell, hitem]
        exact Option.some_ne_none _

theorem renewClaim_cell (claim : ResourceClaim) (leaseMs now : Int) (ref : ManagedResourceRef) :
    Step none (db.cell ref) ((db.renewClaim sha256 claim leaseMs now).2.cell ref) := by
  unfold renewClaim
  split
  · refine step_at claim.ref (fun j hj => ?_) ?_ ref
    · exact cell_congr (Table.get?_update_ne hj _ _) rfl
    · have hsame : (⟨db.resources, db.leases.update claim.ref fun lease =>
          { lease with owner := lease.owner.map fun owner =>
            { owner with heartbeatAt := now, expiresAt := now + leaseMs } }, db.queue⟩ :
          ResourceDb).cell claim.ref = db.cell claim.ref := by
        rw [cell, cell, Table.get?_update_self]
        cases db.leases.get? claim.ref with
        | none => rfl
        | some lease => cases hlease : lease.owner <;> simp [hlease]
      exact hsame ▸ .keep _
  · exact .keep _

/-- What is left of the cell of a claim that is settled or put back. -/
def settledDue (claim : ResourceClaim) (requeue : Option RequeueOptions) (due : Int × Nat) :
    Option (Int × Nat) :=
  match requeue with
  | none => if due.2 = claim.queueVersion then none else some due
  | some options => some (options.availableAt, due.2 + 1)

/-- An accepted settlement or return of a claim. -/
theorem settle_ok {claim : ResourceClaim} {requeue : Option RequeueOptions} {now : Int}
    (h : db.settleResourceManagerClaim sha256 claim requeue now = .ok (true, db')) :
    (db.cell claim.ref).held = true ∧ (db.cell claim.ref).generation = claim.generation ∧
      db'.cell claim.ref = ⟨(db.cell claim.ref).due.bind (settledDue claim requeue),
        (db.cell claim.ref).generation, false⟩ ∧
      ∀ ref, ref ≠ claim.ref → db'.cell ref = db.cell ref := by
  unfold settleResourceManagerClaim at h
  split at h
  · cases h
  · split at h
    · next hcurrent =>
        simp only [bind_ok, orThrow_ok, Except.ok.injEq, Prod.mk.injEq, true_and] at h
        obtain ⟨item, hitem, rfl⟩ := h
        obtain ⟨lease, hlease, hheld⟩ := (Option.any_eq_true _ _).1 hcurrent
        obtain ⟨hgeneration, howner⟩ := of_decide_eq_true hheld
        obtain ⟨owner, howner, -⟩ := (Option.any_eq_true _ _).1 howner
        have hleases : (db.settleQueue claim item now requeue).leases = db.leases := by
          unfold settleQueue
          split
          · split <;> rfl
          · rfl
        refine ⟨?_, ?_, ?_, fun ref href => ?_⟩
        · rw [cell, hlease, Option.any_some, howner]
          rfl
        · rw [cell, hlease]
          exact hgeneration
        · have hdue : ((db.settleQueue claim item now requeue).queue.get? claim.ref).map
              (fun item => (item.availableAt, item.queueVersion)) =
              settledDue claim requeue (item.availableAt, item.queueVersion) := by
            unfold settleQueue settledDue
            cases requeue with
            | none =>
                dsimp only
                split
                · rw [Table.get?_erase, if_pos rfl]
                  rfl
                · rw [hitem]
                  rfl
            | some options =>
                dsimp only
                rw [Table.get?_update_self, hitem]
                rfl
          rw [releaseLease, cell_bumpResource, cell, cell, hleases, Table.get?_update_self, hlease,
            hdue, hitem]
          rfl
        · rw [releaseLease, cell_bumpResource]
          refine cell_congr ?_ ?_
          · show ((db.settleQueue claim item now requeue).leases.update claim.ref _).get? ref = _
            rw [Table.get?_update_ne href, hleases]
          · show (db.settleQueue claim item now requeue).queue.get? ref = _
            unfold settleQueue
            split
            · split
              · rw [Table.get?_erase, if_neg href]
              · rfl
            · exact Table.get?_update_ne href _ _
    · cases h

theorem settle_cell {claim : ResourceClaim} {requeue : Option RequeueOptions} {now : Int}
    {accepted : Bool} (h : db.settleResourceManagerClaim sha256 claim requeue now = .ok (accepted, db'))
    (ref : ManagedResourceRef) : Step none (db.cell ref) (db'.cell ref) := by
  cases accepted with
  | true =>
      obtain ⟨hheld, -, htarget, hothers⟩ := settle_ok h
      refine step_at claim.ref hothers ?_ ref
      rw [htarget]
      cases requeue with
      | none =>
          have hfilter : (db.cell claim.ref).due.bind (settledDue claim none) =
              (db.cell claim.ref).due.filter fun due => due.2 ≠ claim.queueVersion := by
            cases (db.cell claim.ref).due with
            | none => rfl
            | some due => by_cases hseen : due.2 = claim.queueVersion <;> simp [settledDue, Option.filter, hseen]
          rw [hfilter]
          exact .settle claim.queueVersion hheld
      | some options =>
          have hmap : (db.cell claim.ref).due.bind (settledDue claim (some options)) =
              (db.cell claim.ref).due.map fun due => (options.availableAt, due.2 + 1) := by
            cases (db.cell claim.ref).due <;> rfl
          rw [hmap]
          exact .putBack options.availableAt hheld
  | false =>
      unfold settleResourceManagerClaim at h
      split at h
      · obtain rfl := (Prod.mk.inj (Except.ok.inj h)).2
        exact .keep _
      · split at h
        · simp only [bind_ok, Except.ok.injEq, Prod.mk.injEq] at h
          obtain ⟨_, _, hfalse, -⟩ := h
          cases hfalse
        · obtain rfl := (Prod.mk.inj (Except.ok.inj h)).2
          exact .keep _

/-! ## Runs -/

/-- Every accepted call is one step of every resource. -/
theorem step_cell {action : Action} (h : db.step sha256 action = .ok db') (ref : ManagedResourceRef) :
    Step (db.wakeTime sha256 ref action) (db.cell ref) (db'.cell ref) := by
  cases action with
  | putResource options => exact putResource_cell h ref
  | requestDeletion target now => exact requestDeletion_cell h ref
  | enqueue target availableAt now => exact enqueue_cell h ref
  | claimNext options =>
      obtain ⟨⟨given, _⟩, hclaim, rfl⟩ := map_ok.1 h
      exact claimNext_cell hclaim ref
  | renewClaim claim leaseMs now =>
      obtain rfl := Except.ok.inj h
      exact renewClaim_cell claim leaseMs now ref
  | settleClaim claim now =>
      obtain ⟨⟨accepted, _⟩, hsettle, rfl⟩ := map_ok.1 h
      exact settle_cell hsettle ref
  | requeueClaim claim options now =>
      obtain ⟨⟨accepted, _⟩, hsettle, rfl⟩ := map_ok.1 h
      exact settle_cell hsettle ref

/-- What every step of a cell preserves holds at the end of a run. -/
theorem run_cell {P : Cell Int → Prop} (hP : ∀ w c c', Step w c c' → P c → P c')
    {ref : ManagedResourceRef} (h : P (db.cell ref)) (actions : List Action) :
    P ((db.run sha256 actions).cell ref) :=
  Trace.served_invariant (fun _ _ _ hcell hstep => hP _ _ _ (step_cell hstep ref) hcell) h actions

/-- A claimed resource is held under the version the claim has seen. -/
theorem claimNext_held {options : ClaimOptions} {claim : ResourceClaim}
    (h : db.claimNext sha256 options = .ok (some claim, db')) :
    Held claim.generation claim.queueVersion (db'.cell claim.ref) := by
  obtain ⟨item, lease, hitem, hlease, hversion, hgeneration, hqueue, owner, hleases⟩ := claimNext_some h
  have hcell : (db.cell claim.ref).generation = lease.generation := by
    rw [cell, hlease]
    rfl
  rw [cell_claimed hlease hqueue hleases, hgeneration, ← hcell]
  refine held_take (t := item.availableAt) ?_
  rw [cell, hitem, hversion]
  rfl

/-- A resource that was enqueued for a time while it was claimed: once the claim is
settled or put back it is in the queue for that time exactly if it was not put
back for a later one, and if it is then it stays so until it is claimed again. -/
theorem enqueuedClaim_due_iff {options : ClaimOptions} {claim : ResourceClaim} {db₁ db₂ db₃ : ResourceDb}
    (hclaim : db.claimNext sha256 options = .ok (some claim, db₁)) (before : List Action)
    {wake : Action} {t : Int} (hwake : (db₁.run sha256 before).step sha256 wake = .ok db₂)
    (htime : (db₁.run sha256 before).wakeTime sha256 claim.ref wake = some t) (after : List Action)
    (resourceVersion : Nat) (expiresAt : Int) {requeue : Option RequeueOptions} {now : Int}
    (hsettle : (db₂.run sha256 after).settleResourceManagerClaim sha256
      { claim with resourceVersion, expiresAt } requeue now = .ok (true, db₃)) :
    (db₃.QueuedBy claim.ref t ↔ ∀ options, requeue = some options → options.availableAt ≤ t) ∧
      (db₃.QueuedBy claim.ref t → ∀ later,
        claim.generation < ((db₃.run sha256 later).cell claim.ref).generation ∨
          (db₃.run sha256 later).QueuedBy claim.ref t) := by
  have hheld : Held claim.generation claim.queueVersion ((db₁.run sha256 before).cell claim.ref) :=
    run_cell (fun _ _ _ hstep => hstep.held) (claimNext_held hclaim) before
  have hwoken : Woken claim.generation claim.queueVersion t (db₂.cell claim.ref) := by
    have hstep := step_cell hwake claim.ref
    rw [htime] at hstep
    exact hstep.woken_of_wake hheld
  have hstill : Woken claim.generation claim.queueVersion t
      ((db₂.run sha256 after).cell claim.ref) :=
    run_cell (fun _ _ _ hstep => hstep.woken) hwoken after
  obtain ⟨hopen, hgeneration, hcell, -⟩ := settle_ok hsettle
  obtain ⟨time, version, hdue, hseen, hle⟩ := hstill.held hgeneration hopen
  have hqueued : db₃.QueuedBy claim.ref t ↔
      ∀ options, requeue = some options → options.availableAt ≤ t := by
    rw [queuedBy_iff, DueBy, hcell, hdue, Option.bind_some]
    cases requeue with
    | none =>
        refine iff_of_true ⟨time, version, ?_, hle⟩ nofun
        exact if_neg (Nat.ne_of_gt hseen)
    | some options =>
        constructor
        · rintro ⟨time', version', hput, hle'⟩ options' hoptions
          obtain ⟨rfl, -⟩ := Prod.mk.inj (Option.some.inj hput)
          obtain rfl := Option.some.inj hoptions
          exact hle'
        · intro hearly
          exact ⟨options.availableAt, version + 1, rfl, hearly options rfl⟩
  refine ⟨hqueued, fun hdue₃ later => ?_⟩
  have hwaiting : Waiting claim.generation t (db₃.cell claim.ref) := by
    refine .inr ⟨?_, ?_, queuedBy_iff.1 hdue₃⟩
    · rw [hcell]
      exact hgeneration
    · rw [hcell]
  have hthen : Waiting claim.generation t ((db₃.run sha256 later).cell claim.ref) :=
    run_cell (fun _ _ _ hstep => hstep.waiting) hwaiting later
  rcases hthen with htaken | ⟨-, -, hlater⟩
  · exact .inl htaken
  · exact .inr (queuedBy_iff.2 hlater)

/-! ## A wake-up during a failing reconciliation -/

def jobRef : ManagedResourceRef := ⟨"jobs", "one"⟩

def createdJob : ResourceDb :=
  empty.run id [.putResource ⟨jobRef, .null, .null, 0, "uid-1"⟩]

def jobOptions : ClaimOptions := ⟨["jobs"], "runner-1", 60000, 0, [], "token-1"⟩

def jobClaim : ResourceClaim := ⟨jobRef, "runner-1", "token-1", 1, 1, 2, 0, 60000⟩

/-- The resource after its claim. -/
def claimedJob : ResourceDb :=
  let leases := createdJob.leases.update jobRef fun lease =>
    lease.claim ⟨.resource_manager, "runner-1", "token-1", 0, 0, 60000⟩
  bumpResource { createdJob with leases } jobRef

theorem claimNext_job : createdJob.claimNext id jobOptions = .ok (some jobClaim, claimedJob) := by
  have hentries : createdJob.queue.rows.filter (fun e => createdJob.isClaimable jobOptions e.1 e.2) =
      [(jobRef, ⟨0, 1, 0, none, 0, 0⟩)] := rfl
  have hnext : createdJob.nextClaimable jobOptions = some (jobRef, ⟨0, 1, 0, none, 0, 0⟩) := by
    rw [nextClaimable, hentries, List.mergeSort_singleton]
    rfl
  rw [claimNext, hnext]
  rfl

/-- It is enqueued after a second, and put back after two for that second. -/
theorem enqueuedJob_due : ∃ db₃,
    (claimedJob.run id [.enqueue jobRef none 1000]).settleResourceManagerClaim id jobClaim
        (some ⟨1000, none⟩) 2000 = .ok (true, db₃) ∧ db₃.QueuedBy jobRef 1000 := by
  have hwake : (claimedJob.run id []).step id (.enqueue jobRef none 1000) =
      .ok (claimedJob.run id [.enqueue jobRef none 1000]) := rfl
  obtain ⟨db₃, hsettle⟩ : ∃ db₃, ((claimedJob.run id [.enqueue jobRef none 1000]).run id
      []).settleResourceManagerClaim id { jobClaim with resourceVersion := 2, expiresAt := 60000 }
        (some ⟨1000, none⟩) 2000 = .ok (true, db₃) := ⟨_, rfl⟩
  refine ⟨db₃, hsettle, (enqueuedClaim_due_iff claimNext_job [] hwake rfl [] 2 60000 hsettle).1.2 ?_⟩
  intro options hoptions
  obtain rfl := Option.some.inj hoptions
  decide

/-- Put back for a minute later instead, the wake-up after a second is forgotten. -/
theorem delayedJob_late :
    createdJob.claimNext id jobOptions = .ok (some jobClaim, claimedJob) ∧
      ¬ (claimedJob.run id [.enqueue jobRef none 1000,
        .requeueClaim jobClaim ⟨62000, some "failed"⟩ 2000]).QueuedBy jobRef 1000 := by
  refine ⟨claimNext_job, ?_⟩
  rintro ⟨item, hitem, hle⟩
  have hfound : (claimedJob.run id [.enqueue jobRef none 1000,
      .requeueClaim jobClaim ⟨62000, some "failed"⟩ 2000]).queue.get? jobRef =
        some ⟨62000, 3, 1, some "failed", 0, 2000⟩ := rfl
  rw [hfound] at hitem
  obtain rfl := Option.some.inj hitem
  exact absurd hle (by decide)

end ResourceDb

end PiWorkflows
