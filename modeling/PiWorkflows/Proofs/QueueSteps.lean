import PiWorkflows.Lib.Fence
import PiWorkflows.Workflows.Queue

/-!
# What an operation of the queue can do

Most operations find one run and write its row of `runs`, of `run_queue` and of
`leases`; a reservation adds a run, and a server restart moves the expiry of
leases. `RowUpdate` is what the first kind leaves behind, whatever else it wrote,
and `QueueChange` collects the kinds. An operation is read once, in its lemma
below, and every fact about the queue follows from the change it makes.

Seen as a cell of `Lib.Fence`, a queue entry is open until its status is
terminal, its generation is the lease's and its holder is the lease's token hash.
-/

namespace PiWorkflows

open Fallible Fence

/-! ## The entry of a run -/

/-- A terminal status of an entry. -/
def queueOutcome (queue : QueueRow) : Option QueueStatus :=
  if queue.status.isTerminal then some queue.status else none

/-- The entry as a cell: who holds it is told by the digest of the token. -/
def cellOf (queue : QueueRow) (lease : Lease) : Cell String QueueStatus :=
  ⟨queueOutcome queue, lease.generation, lease.owner.map LeaseOwner.tokenHash⟩

/-- The cells of the queue. -/
def queueCells (db : Db) (runId : String) : Option (Cell String QueueStatus) := do
  let queue ← db.runQueue.get? runId
  let lease ← db.leases.get? runId
  pure (cellOf queue lease)

/-- The durable outcome of a run that has one: its terminal status and its error. -/
def RunRow.outcome (run : RunRow) : Option (StoredRunStatus × Option String) :=
  if run.status.isTerminal then some (run.status, run.error) else none

theorem queueOutcome_open {queue : QueueRow} :
    queueOutcome queue = none ↔ queue.status.isTerminal = false := by
  unfold queueOutcome
  split
  · next h => simp [h]
  · next h => simp [h]

theorem queueOutcome_some {queue : QueueRow} {status : QueueStatus} :
    queueOutcome queue = some status ↔ queue.status = status ∧ status.isTerminal = true := by
  unfold queueOutcome
  split
  · next h =>
      constructor
      · rintro ⟨⟩
        exact ⟨rfl, h⟩
      · rintro ⟨rfl, -⟩
        rfl
  · next h =>
      constructor
      · intro hnone
        cases hnone
      · rintro ⟨rfl, hterminal⟩
        exact absurd hterminal h

theorem workflowRunRow_some {db : Db} {runId : String} {row : QueuedRun} :
    workflowRunRow db runId = some row ↔
      db.runs.get? runId = some row.run ∧ db.runQueue.get? runId = some row.queue ∧
        db.leases.get? runId = some row.lease ∧ db.bindings.get? runId = row.binding := by
  obtain ⟨run, queue, binding, lease⟩ := row
  simp only [workflowRunRow, Option.bind_eq_bind, Option.pure_def, Option.bind_eq_some_iff,
    Option.some.injEq, QueuedRun.mk.injEq]
  constructor
  · rintro ⟨_, hrun, _, hqueue, _, hlease, rfl, rfl, hbinding, rfl⟩
    exact ⟨hrun, hqueue, hlease, hbinding⟩
  · rintro ⟨hrun, hqueue, hlease, hbinding⟩
    exact ⟨run, hrun, queue, hqueue, lease, hlease, rfl, rfl, hbinding, rfl⟩

theorem queueCells_some {db : Db} {runId : String} {queue : QueueRow} {lease : Lease}
    (hqueue : db.runQueue.get? runId = some queue) (hlease : db.leases.get? runId = some lease) :
    queueCells db runId = some (cellOf queue lease) := by
  rw [queueCells, hqueue, hlease]
  rfl

theorem isHeldBy_holder {sha256 : String → String} {lease : Lease} {token : String} {now : Int}
    (h : lease.isHeldBy sha256 token now = true) :
    lease.owner.map LeaseOwner.tokenHash = some (sha256 token) := by
  unfold Lease.isHeldBy at h
  cases howner : lease.owner with
  | none => simp [howner] at h
  | some owner =>
      have htoken : owner.tokenHash = sha256 token ∧ now < owner.expiresAt := by
        simpa [howner] using h
      rw [Option.map_some, htoken.1]

theorem verifyWorkflowRunClaim_ok {sha256 : String → String} {db : Db} {runId token : String}
    {now : Int} (h : verifyWorkflowRunClaim sha256 db runId token now = true) :
    ∃ row, workflowRunRow db runId = some row ∧ row.lease.isHeldBy sha256 token now = true := by
  unfold verifyWorkflowRunClaim at h
  cases hrow : workflowRunRow db runId with
  | none => simp [hrow] at h
  | some row => exact ⟨row, rfl, by simpa [hrow] using h⟩

/-! ## Changes of one row -/

/-- The row of one run changed, and that of no other. -/
structure RowUpdate (db db' : Db) (runId : String) (row row' : QueuedRun) : Prop where
  before : workflowRunRow db runId = some row
  runs : ∀ k, db'.runs.get? k = if k = runId then some row'.run else db.runs.get? k
  runQueue : ∀ k, db'.runQueue.get? k = if k = runId then some row'.queue else db.runQueue.get? k
  leases : ∀ k, db'.leases.get? k = if k = runId then some row'.lease else db.leases.get? k
  bindings : db'.bindings = db.bindings

namespace RowUpdate

variable {db db' : Db} {runId : String} {row row' : QueuedRun}

theorem start (h : workflowRunRow db runId = some row) : RowUpdate db db runId row row := by
  obtain ⟨hrun, hqueue, hlease, -⟩ := workflowRunRow_some.1 h
  refine ⟨h, ?_, ?_, ?_, rfl⟩
  · intro k
    split
    · next hk => rw [hk, hrun]
    · rfl
  · intro k
    split
    · next hk => rw [hk, hqueue]
    · rfl
  · intro k
    split
    · next hk => rw [hk, hlease]
    · rfl

/-- What is written to one table, read at one key. -/
theorem get?_update_if {ρ : Type} {t t₀ : Table String ρ} {r : ρ} (f : ρ → ρ)
    (h : ∀ k, t.get? k = if k = runId then some r else t₀.get? k) (k : String) :
    (t.update runId f).get? k = if k = runId then some (f r) else t₀.get? k := by
  rw [Table.get?_update, h]
  split <;> rfl

theorem updateRun (h : RowUpdate db db' runId row row') (f : RunRow → RunRow) :
    RowUpdate db (db'.updateRun runId f) runId row { row' with run := f row'.run } :=
  { h with runs := get?_update_if f h.runs }

theorem updateQueue (h : RowUpdate db db' runId row row') (f : QueueRow → QueueRow) :
    RowUpdate db (db'.updateQueue runId f) runId row { row' with queue := f row'.queue } :=
  { h with runQueue := get?_update_if f h.runQueue }

theorem updateLease (h : RowUpdate db db' runId row row') (f : Lease → Lease) :
    RowUpdate db (db'.updateLease runId f) runId row { row' with lease := f row'.lease } :=
  { h with leases := get?_update_if f h.leases }

theorem bumpRun (h : RowUpdate db db' runId row row') :
    RowUpdate db (db'.bumpRun runId) runId row
      { row' with run := { row'.run with revision := row'.run.revision + 1 } } :=
  h.updateRun _

/-- Writes of other tables. -/
theorem frame {db'' : Db} (h : RowUpdate db db' runId row row') (hruns : db''.runs = db'.runs)
    (hqueue : db''.runQueue = db'.runQueue) (hleases : db''.leases = db'.leases)
    (hbindings : db''.bindings = db'.bindings) : RowUpdate db db'' runId row row' where
  before := h.before
  runs := by rw [hruns]; exact h.runs
  runQueue := by rw [hqueue]; exact h.runQueue
  leases := by rw [hleases]; exact h.leases
  bindings := by rw [hbindings]; exact h.bindings

theorem closeRunTime (h : RowUpdate db db' runId row row') (id : String) :
    RowUpdate db (db'.closeRunTime id) runId row row' :=
  h.frame rfl rfl rfl rfl

theorem rejectValidating (h : RowUpdate db db' runId row row') (isRejected : String → Bool)
    (error : String) : RowUpdate db (rejectValidating db' isRejected error) runId row row' :=
  h.frame rfl rfl rfl rfl

theorem cancelDependents (h : RowUpdate db db' runId row row') (id : String) (now : Int)
    (actorId error : String) :
    RowUpdate db (cancelWorkflowRunDependents db' id now actorId error) runId row row' :=
  h.frame rfl rfl rfl rfl

theorem failDependents (h : RowUpdate db db' runId row row') (id : String) (now : Int)
    (error : String) : RowUpdate db (failWorkflowRunDependents db' id now error) runId row row' :=
  h.frame rfl rfl rfl rfl

/-- The cells when one entry moved. -/
theorem moves (h : RowUpdate db db' runId row row') {token : Option String}
    (hstep : Step token (cellOf row.queue row.lease) (cellOf row'.queue row'.lease)) :
    Moves (token.map fun t => (runId, t)) (queueCells db) (queueCells db') := by
  obtain ⟨-, hqueue, hlease, -⟩ := workflowRunRow_some.1 h.before
  refine Moves.at (queueCells_some hqueue hlease) hstep ?_
  intro k
  by_cases hk : k = runId
  · have hqueue' := h.runQueue k
    have hlease' := h.leases k
    rw [if_pos hk] at hqueue' hlease' ⊢
    exact queueCells_some hqueue' hlease'
  · rw [if_neg hk, queueCells, queueCells, h.runQueue, h.leases, if_neg hk, if_neg hk]

end RowUpdate

/-- What an operation that found a run made of its row: a step of its cell for
the same session. Unless the operation ends the run whatever its state, a
durable outcome is kept. -/
structure RowStep (forced : Bool) (token : Option String) (row row' : QueuedRun) : Prop where
  cell : Step token (cellOf row.queue row.lease) (cellOf row'.queue row'.lease)
  session : row'.queue.originSessionId = row.queue.originSessionId
  outcome : forced = false → ∀ o, row.run.outcome = some o → row'.run.outcome = some o

/-- What a reservation added. -/
structure Reserved (db db' : Db) (options : ReservationOptions) : Prop where
  runs : db.runs.get? options.runId = none ∧
    ∀ k, k ≠ options.runId → db'.runs.get? k = db.runs.get? k
  runQueue : ∃ queue : QueueRow, queue.status = .queued ∧
    queue.originSessionId = sessionReservation options ∧
    ∀ k, db'.runQueue.get? k = if k = options.runId then some queue else db.runQueue.get? k
  leases : db.leases.get? options.runId = none ∧
    ∀ k, db'.leases.get? k = if k = options.runId then some ⟨0, none⟩ else db.leases.get? k
  bindings : ∀ k, db'.bindings.get? k =
    if k = options.runId then
      some ⟨options.originSessionId, options.executionMode.getD .interactive⟩
    else db.bindings.get? k
  alone : ∀ session, sessionReservation options = some session → ∀ k queue,
    db.runQueue.get? k = some queue → queue.originSessionId = some session →
    queue.status.isTerminal = true

/-- What an operation made of the database, with the token of the claim it made. -/
inductive QueueChange (sha256 : String → String) (forced : Bool) (db : Db) :
    Option (String × String) → Db → Prop
  | same : QueueChange sha256 forced db none db
  | row {runId : String} {row row' : QueuedRun} {db' : Db} (token : Option String)
      (hupdate : RowUpdate db db' runId row row')
      (hstep : RowStep forced (token.map sha256) row row') :
      QueueChange sha256 forced db (token.map fun t => (runId, t)) db'
  | reserved {options : ReservationOptions} {db' : Db} (h : Reserved db db' options) :
      QueueChange sha256 forced db none db'
  | expired {db' : Db} (hruns : db'.runs = db.runs) (hqueue : db'.runQueue = db.runQueue)
      (hbindings : db'.bindings = db.bindings)
      (hleases : ∀ k, ∃ f : LeaseOwner → LeaseOwner, (∀ owner, (f owner).tokenHash = owner.tokenHash) ∧
        db'.leases.get? k = (db.leases.get? k).map fun lease =>
          { lease with owner := lease.owner.map f }) :
      QueueChange sha256 forced db none db'

/-! ## Steps of a cell -/

section

variable {queue queue' : QueueRow} {lease lease' : Lease}

theorem step_work (hheld : lease.owner ≠ none) (hopen : queue'.status.isTerminal = false) :
    Step none (cellOf queue lease) (cellOf queue' lease) := by
  have hcell : cellOf queue' lease = ⟨none, lease.generation, lease.owner.map LeaseOwner.tokenHash⟩ := by
    rw [cellOf, queueOutcome_open.2 hopen]
  rw [hcell]
  exact .work (by simpa [cellOf] using hheld)

theorem step_release (hheld : lease.owner ≠ none) :
    Step none (cellOf queue lease) (cellOf queue' lease.release) :=
  .release (queueOutcome queue') (by simpa [cellOf] using hheld)

theorem step_open (hopen : queue.status.isTerminal = false)
    (hopen' : queue'.status.isTerminal = false) :
    Step none (cellOf queue lease) (cellOf queue' lease) := by
  have hcell : cellOf queue' lease = cellOf queue lease := by
    rw [cellOf, cellOf, queueOutcome_open.2 hopen, queueOutcome_open.2 hopen']
  rw [hcell]
  exact .keep _

theorem step_claim {owner : LeaseOwner} {hash : String} (hopen : queue.status.isTerminal = false)
    (hopen' : queue'.status.isTerminal = false) (hhash : owner.tokenHash = hash) :
    Step (some hash) (cellOf queue lease) (cellOf queue' (lease.claim owner)) := by
  have hcell : cellOf queue' (lease.claim owner) = ⟨none, lease.generation + 1, some hash⟩ := by
    rw [cellOf, queueOutcome_open.2 hopen', ← hhash]
    rfl
  rw [hcell]
  exact .claim _ (queueOutcome_open.2 hopen)

theorem step_finish (hopen : queue.status.isTerminal = false) (hfree : lease'.owner = none)
    (hover : queue'.status.isTerminal = true) :
    Step none (cellOf queue lease) (cellOf queue' lease') := by
  have hcell : cellOf queue' lease' = ⟨some queue'.status, lease'.generation, none⟩ := by
    rw [cellOf, queueOutcome_some.2 ⟨rfl, hover⟩, hfree]
    rfl
  rw [hcell]
  exact .finish _ _ (queueOutcome_open.2 hopen)

/-- Other times of the lease, for the same entry. -/
theorem cellOf_times {f : LeaseOwner → LeaseOwner}
    (hf : ∀ owner, (f owner).tokenHash = owner.tokenHash) :
    cellOf queue { lease with owner := lease.owner.map f } = cellOf queue lease := by
  unfold cellOf
  rw [Option.map_map]
  congr 2
  funext owner
  exact hf owner

theorem step_times {f : LeaseOwner → LeaseOwner}
    (hf : ∀ owner, (f owner).tokenHash = owner.tokenHash) :
    Step none (cellOf queue lease) (cellOf queue { lease with owner := lease.owner.map f }) := by
  rw [cellOf_times hf]
  exact .keep _

end

theorem owner_of_isHeldBy {sha256 : String → String} {lease : Lease} {token : String} {now : Int}
    (h : lease.isHeldBy sha256 token now = true) : lease.owner ≠ none := by
  intro hnone
  have hholder := isHeldBy_holder h
  rw [hnone] at hholder
  cases hholder

/-- The outcome of a run that has none is kept. -/
theorem outcome_of_open {run : RunRow} (h : run.status.isTerminal = false)
    {o : StoredRunStatus × Option String} : run.outcome ≠ some o := by
  rw [RunRow.outcome, h]
  exact Option.some_ne_none o ∘ Eq.symm

/-! ## The operations, one by one -/

section

variable {sha256 : String → String} {db db' : Db} {runId token : String} {now : Int}
  {forced accepted : Bool}

theorem claimRun_ok {runnerId : String} {leaseMs : Int} {options : ClaimOptions}
    (h : claimRun sha256 db runId runnerId token leaseMs now options = some db') :
    QueueChange sha256 forced db (some (runId, token)) db' := by
  unfold claimRun at h
  split at h
  · cases h
  · next row hrow =>
      split at h
      · cases h
      · next hopen =>
          have hopen : row.queue.status.isTerminal = false := by simpa using hopen
          split at h
          · cases h
          · split at h
            · cases h
            · simp only [Option.some.injEq] at h
              subst h
              have hclaimed := (RowUpdate.start hrow).updateLease fun lease =>
                lease.claim
                  { type := runnerOwnerType runnerId, id := runnerId, tokenHash := sha256 token
                    acquiredAt := now, heartbeatAt := now, expiresAt := now + leaseMs }
              split
              · exact .row (some token) hclaimed.bumpRun
                  ⟨step_claim hopen hopen (by rfl), rfl, fun _ _ ho => ho⟩
              · exact .row (some token) (hclaimed.updateQueue _).bumpRun
                  ⟨step_claim hopen rfl (by rfl), rfl, fun _ _ ho => ho⟩

theorem claimNextWorkflowRun_ok {runnerId claimed : String} {leaseMs : Int} {exclude : List String}
    (h : claimNextWorkflowRun sha256 db runnerId token leaseMs now exclude = some (claimed, db')) :
    QueueChange sha256 forced db (some (claimed, token)) db' := by
  simp only [claimNextWorkflowRun, Option.bind_eq_bind, Option.pure_def, Option.bind_eq_some_iff,
    Option.some.injEq, Prod.mk.injEq] at h
  obtain ⟨runId, -, db₁, hclaim, rfl, rfl⟩ := h
  exact claimRun_ok hclaim

theorem renewWorkflowRunClaim_change {leaseMs : Int} :
    QueueChange sha256 forced db none
      (renewWorkflowRunClaim sha256 db runId token leaseMs now).1 := by
  unfold renewWorkflowRunClaim
  split
  · next h =>
      obtain ⟨row, hrow, hheld⟩ := verifyWorkflowRunClaim_ok h
      exact .row none ((RowUpdate.start hrow).updateLease _)
        ⟨step_times fun owner => by rfl, rfl, fun _ _ ho => ho⟩
  · exact .same

theorem markWorkflowRunRunning_change :
    QueueChange sha256 forced db none (markWorkflowRunRunning sha256 db runId token now).1 := by
  unfold markWorkflowRunRunning updateClaimedRunStatus
  split
  · next h =>
      obtain ⟨row, hrow, hheld⟩ := verifyWorkflowRunClaim_ok h
      exact .row none ((RowUpdate.start hrow).updateQueue _).bumpRun
        ⟨step_work (owner_of_isHeldBy hheld) rfl, rfl, fun _ _ ho => ho⟩
  · exact .same

/-- `parkWorkflowRun` and `completeWorkflowRun`. -/
theorem releaseRunClaim_change {status : QueueStatus} :
    QueueChange sha256 forced db none (releaseRunClaim sha256 db runId token now status).1 := by
  unfold releaseRunClaim
  split
  · next h =>
      obtain ⟨row, hrow, hheld⟩ := verifyWorkflowRunClaim_ok h
      have hupdate := (((RowUpdate.start hrow).updateQueue fun queue =>
        { queue with
          status := status, updatedAt := now
          finishedAt := if status = .done then some now else none }).updateLease
            Lease.release).bumpRun
      exact .row none (hupdate.frame rfl rfl rfl rfl)
        ⟨step_release (owner_of_isHeldBy hheld), rfl, fun _ _ ho => ho⟩
  · exact .same

/-- `parkWorkflowRunForRunnerNoProgress` and `parkWorkflowRunForSourceChange`. -/
theorem parkForError_ok {errorCode detail conflict : String}
    (h : parkForError sha256 db runId token now errorCode detail conflict = .ok (db', accepted)) :
    QueueChange sha256 forced db none db' := by
  unfold parkForError at h
  split at h
  · cases h
    exact .same
  · next row hrow =>
      split at h
      · next hheld =>
          simp only [bind_ok, require_ok, pure_ok, Prod.mk.injEq] at h
          obtain ⟨_, ⟨hrun, -⟩, rfl, -⟩ := h
          exact .row none
            ((((RowUpdate.start hrow).updateRun _).updateQueue _).updateLease Lease.release).bumpRun
            ⟨step_release (owner_of_isHeldBy hheld), rfl,
              fun _ _ ho => absurd ho (outcome_of_open hrun)⟩
      · cases h
        exact .same

theorem parkWorkflowRunForAmbiguousEffect_ok
    (h : parkWorkflowRunForAmbiguousEffect sha256 db runId token now = .ok (db', accepted)) :
    QueueChange sha256 forced db none db' := by
  unfold parkWorkflowRunForAmbiguousEffect at h
  split at h
  · cases h
    exact .same
  · next row hrow =>
      split at h
      · next hheld =>
          simp only [bind_ok, require_ok, pure_ok, Prod.mk.injEq] at h
          obtain ⟨_, ⟨hrun, -⟩, rfl, -⟩ := h
          have hwaiting : RowUpdate db { db with
              attempts := db.attempts.updateWhere
                (fun _ attempt => attempt.runId = runId ∧
                  attempt.status ∈ [AttemptStatus.pending, .running])
                fun attempt => { attempt with status := .waiting, updatedAt := now } }
              runId row row :=
            (RowUpdate.start hrow).frame rfl rfl rfl rfl
          exact .row none
            (((hwaiting.updateRun _).updateQueue _).updateLease Lease.release).bumpRun
            ⟨step_release (owner_of_isHeldBy hheld), rfl,
              fun _ _ ho => absurd ho (outcome_of_open (by rw [hrun]; rfl))⟩
      · cases h
        exact .same

theorem beginWorkflowRunInteractionTimeout_ok {targetSessionId : String}
    (h : beginWorkflowRunInteractionTimeout db runId now sha256 targetSessionId token =
      .ok (db', accepted)) : QueueChange sha256 forced db none db' := by
  unfold beginWorkflowRunInteractionTimeout at h
  split at h
  · cases h
    exact .same
  · next row hrow =>
      split at h
      · next hheld =>
          split at h
          · cases h
            exact .same
          · next requestId request hrequest =>
              simp only [bind_ok, require_ok, pure_ok, Prod.mk.injEq] at h
              obtain ⟨_, ⟨hrun, -⟩, rfl, -⟩ := h
              have hcancelled : RowUpdate db { db.closeRunTime runId with
                  requests := (db.closeRunTime runId).requests.update requestId
                    (cancelRequest now) } runId row row :=
                (RowUpdate.start hrow).frame rfl rfl rfl rfl
              exact .row none
                (((hcancelled.updateRun _).updateQueue _).rejectValidating _ _).bumpRun
                ⟨step_work (owner_of_isHeldBy hheld) rfl, rfl,
                  fun _ _ ho => absurd ho (outcome_of_open (by rw [hrun]; rfl))⟩
      · cases h
        exact .same

theorem pauseParkedWorkflowRun_change :
    QueueChange sha256 forced db none (pauseParkedWorkflowRun db runId now).1 := by
  unfold pauseParkedWorkflowRun
  split
  · exact .same
  · next row hrow =>
      split
      · exact .same
      · split
        · exact .same
        · split
          · next hrun =>
              have hopen : row.run.status.isTerminal = false := by
                rcases List.mem_pair.1 hrun with h | h
                · rw [h]; rfl
                · rw [h]; rfl
              exact .row none (((RowUpdate.start hrow).updateRun _).closeRunTime runId).bumpRun
                ⟨.keep _, rfl, fun _ _ ho => absurd ho (outcome_of_open hopen)⟩
          · exact .same

theorem resumePausedInteraction_change :
    QueueChange sha256 forced db none (resumePausedInteraction db runId now).1 := by
  unfold resumePausedInteraction
  split
  · exact .same
  · next row hrow =>
      split
      · exact .row none ((RowUpdate.start hrow).updateRun _).bumpRun
          ⟨.keep _, rfl, fun _ _ ho => ho⟩
      · exact .same

theorem requestWorkflowRunResume_change :
    QueueChange sha256 forced db none (requestWorkflowRunResume db runId now).1 := by
  unfold requestWorkflowRunResume
  split
  · exact .same
  · next row hrow =>
      split
      · exact .same
      · next h =>
          have hopen : row.queue.status.isTerminal = false := by
            simpa using (not_or.1 h).1
          exact .row none (((RowUpdate.start hrow).updateRun _).updateQueue _).bumpRun
            ⟨step_open hopen rfl, rfl, fun _ _ ho => ho⟩

theorem outcome_of_terminal {run : RunRow} {status : StoredRunStatus} {error : Option String}
    (hstatus : run.status = status) (herror : run.error = error)
    (hterminal : status.isTerminal = true) : run.outcome = some (status, error) := by
  rw [RunRow.outcome, hstatus, herror, if_pos hterminal]

theorem setTerminal_ok {row row' : QueuedRun} (h : RowUpdate db db' runId row row') (now : Int)
    (runStatus : StoredRunStatus) (queueStatus : QueueStatus) (code error : String) :
    ∃ row'', RowUpdate db (setTerminal db' runId now runStatus queueStatus code error) runId row row'' ∧
      row''.queue.status = queueStatus ∧
      row''.queue.originSessionId = row'.queue.originSessionId ∧ row''.lease = row'.lease ∧
      row''.run.status = runStatus ∧ row''.run.error = some error :=
  ⟨_, (h.updateQueue _).updateRun _, rfl, rfl, rfl, rfl, rfl⟩

/-- What `terminalRun` makes of a run that it ends. -/
theorem terminalRun_ends {row : QueuedRun} {claimToken : Option String} {outcome : TerminalOutcome}
    {code error : String} (hrow : workflowRunRow db runId = some row)
    (hopen : row.queue.status.isTerminal = false)
    (hmay : mayTerminate sha256 row claimToken now = true) :
    ∃ db' row', terminalRun sha256 db runId claimToken outcome code error now = (db', true) ∧
      RowUpdate db db' runId row row' ∧ RowStep true none row row' ∧
      row'.run.outcome = some (outcome.runStatus, some error) := by
  unfold terminalRun
  rw [hrow]
  dsimp only
  rw [if_pos ⟨hopen, hmay⟩]
  obtain ⟨ended, hended, hstatus, hsession, hlease, hrun, herror⟩ :=
    setTerminal_ok (.start hrow) now outcome.runStatus outcome.queueStatus code error
  have hover : outcome.queueStatus.isTerminal = true := by cases outcome <;> rfl
  have houtcome := outcome_of_terminal hrun herror (by cases outcome <;> rfl)
  -- The lease has no owner any more: it is released under a token, and free without one.
  have hreleased : ∃ lease, lease.owner = none ∧
      RowUpdate db (if claimToken.isSome then
        (setTerminal db runId now outcome.runStatus outcome.queueStatus code error).updateLease runId
          Lease.release
        else setTerminal db runId now outcome.runStatus outcome.queueStatus code error) runId row
        { ended with lease := lease } := by
    cases claimToken with
    | some token => exact ⟨_, rfl, hended.updateLease Lease.release⟩
    | none =>
        have hfree : row.queue.status ∈ [QueueStatus.queued, .starting] ∧ row.lease.owner = none := by
          simpa [mayTerminate] using hmay
        exact ⟨ended.lease, by rw [hlease]; exact hfree.2, hended⟩
  obtain ⟨lease, hfree, hreleased⟩ := hreleased
  have hstep : Step none (cellOf row.queue row.lease) (cellOf ended.queue lease) :=
    step_finish hopen hfree (by rw [hstatus]; exact hover)
  have hrowStep : RowStep true none row
      { ended with
        lease := lease, run := { ended.run with revision := ended.run.revision + 1 } } :=
    ⟨hstep, hsession, fun h => by cases h⟩
  cases outcome with
  | failed => exact ⟨_, _, rfl, (hreleased.failDependents _ _ _).bumpRun, hrowStep, houtcome⟩
  | cancelled => exact ⟨_, _, rfl, (hreleased.cancelDependents _ _ _ _).bumpRun, hrowStep, houtcome⟩

theorem terminalRun_refused {claimToken : Option String} {outcome : TerminalOutcome}
    {code error : String}
    (h : ∀ row, workflowRunRow db runId = some row → row.queue.status.isTerminal = false →
      mayTerminate sha256 row claimToken now = false) :
    terminalRun sha256 db runId claimToken outcome code error now = (db, false) := by
  unfold terminalRun
  split
  · rfl
  · next row hrow =>
      rw [if_neg]
      rintro ⟨hopen, hmay⟩
      rw [h row hrow hopen] at hmay
      cases hmay

/-- `failWorkflowRun`, and `cancelWorkflowRun` under a token. -/
theorem terminalRun_change {claimToken : Option String} {outcome : TerminalOutcome}
    {code error : String} :
    QueueChange sha256 true db none
      (terminalRun sha256 db runId claimToken outcome code error now).1 := by
  by_cases h : ∃ row, workflowRunRow db runId = some row ∧ row.queue.status.isTerminal = false ∧
      mayTerminate sha256 row claimToken now = true
  · obtain ⟨row, hrow, hopen, hmay⟩ := h
    obtain ⟨db', row', heq, hupdate, hstep, -⟩ :=
      terminalRun_ends hrow hopen hmay
    rw [heq]
    exact .row none hupdate hstep
  · rw [terminalRun_refused]
    · exact .same
    · intro row hrow hopen
      by_contra hmay
      exact h ⟨row, hrow, hopen, by simpa using hmay⟩

theorem cancelStaleWorkflowRun_ok {controlId : String}
    (h : cancelStaleWorkflowRun db runId controlId now = .ok (db', accepted)) :
    QueueChange sha256 forced db none db' := by
  unfold cancelStaleWorkflowRun at h
  split at h
  · cases h
    exact .same
  · next row hrow =>
      split at h
      · cases h
        exact .same
      · next hstale =>
          have hopen : row.queue.status.isTerminal = false := by
            simpa using (not_or.1 hstale).1
          simp only [bind_ok, require_ok, pure_ok, Prod.mk.injEq] at h
          obtain ⟨_, hrun, rfl, -⟩ := h
          obtain ⟨ended, hended, hstatus, hsession, hlease, -⟩ :=
            setTerminal_ok
              ((RowUpdate.start hrow).updateLease fun lease => ⟨lease.generation + 1, none⟩) now
              .cancelled .cancelled "cancelled" "Workflow run cancelled"
          have hstep : Step none (cellOf row.queue row.lease) (cellOf ended.queue ended.lease) :=
            step_finish hopen (by rw [hlease]) (by rw [hstatus]; rfl)
          exact .row none (hended.cancelDependents _ _ _ _).bumpRun
            ⟨hstep, hsession, fun _ _ ho => absurd ho (outcome_of_open hrun)⟩

theorem cancelWorkflowRun_ok {claimToken : Option String}
    (h : cancelWorkflowRun sha256 db runId claimToken now = .ok (db', accepted)) :
    QueueChange sha256 true db none db' := by
  have hterminal : QueueChange sha256 true db none (terminalRun sha256 db runId claimToken .cancelled
      "cancelled" "Workflow run cancelled" now).1 := terminalRun_change
  unfold cancelWorkflowRun at h
  dsimp only at h
  split at h
  · cases h
    exact hterminal
  · exact cancelStaleWorkflowRun_ok h

theorem expireServerLeases_change {previousServerId : String} :
    QueueChange sha256 forced db none (expireServerLeases db previousServerId now) := by
  refine .expired rfl rfl rfl ?_
  intro k
  show ∃ f : LeaseOwner → LeaseOwner, _ ∧ (Table.updateWhere _ _ db.leases).get? k = _
  rw [Table.get?_updateWhere]
  cases hlease : db.leases.get? k with
  | none => exact ⟨id, fun _ => rfl, rfl⟩
  | some lease =>
      rw [Option.map_some]
      split
      · exact ⟨fun owner => { owner with expiresAt := now }, fun _ => rfl, rfl⟩
      · exact ⟨id, fun _ => rfl, by simp⟩

/-- A session without active entries is free. -/
theorem activeSessionRuns_none {session : String}
    (h : (activeSessionRuns db session).head? = none) {k : String} {queue : QueueRow}
    (hqueue : db.runQueue.get? k = some queue) (hsession : queue.originSessionId = some session) :
    queue.status.isTerminal = true := by
  have hempty : activeSessionRuns db session = [] := List.head?_eq_none_iff.1 h
  by_contra hover
  have hopen : queue.status.isTerminal = false := by simpa using hover
  have hmem : (k, queue) ∈ activeSessionRuns db session := by
    rw [activeSessionRuns, List.mem_mergeSort, List.mem_filter]
    exact ⟨Table.mem_rows.2 hqueue, by simp [hsession, hopen]⟩
  rw [hempty] at hmem
  cases hmem

theorem reserveWorkflowRunInTransaction_ok {options : ReservationOptions} {digest : String}
    (h : reserveWorkflowRunInTransaction db options now digest = .ok db') :
    Reserved db db' options := by
  unfold reserveWorkflowRunInTransaction at h
  simp only [bind_ok, require_ok] at h
  obtain ⟨_, -, lineage, -, h⟩ := h
  split at h
  · cases h
  · next hactive =>
      simp only [bind_ok, orThrow_ok, pure_ok] at h
      obtain ⟨leases, hleases, runs, hruns, bindings, hbindings, runQueue, hqueue, rfl⟩ := h
      obtain ⟨hfree, hleases⟩ := Table.get?_of_insert? hleases
      obtain ⟨hnew, hruns⟩ := Table.get?_of_insert? hruns
      obtain ⟨-, hbindings⟩ := Table.get?_of_insert? hbindings
      obtain ⟨-, hqueue⟩ := Table.get?_of_insert? hqueue
      refine ⟨⟨hnew, fun k hk => ?_⟩, ⟨_, rfl, rfl, hqueue⟩, ⟨hfree, hleases⟩, hbindings, ?_⟩
      · show runs.get? k = db.runs.get? k
        rw [hruns, if_neg hk]
      · intro session hsession k queue hk hbound
        rw [hsession] at hactive
        exact activeSessionRuns_none hactive hk hbound

theorem reserveWorkflowRun_ok {options : ReservationOptions}
    (h : reserveWorkflowRun db options now = .ok db') : QueueChange sha256 forced db none db' := by
  simp only [reserveWorkflowRun, bind_ok] at h
  obtain ⟨_, -, digest, -, h⟩ := h
  exact .reserved (reserveWorkflowRunInTransaction_ok h)

theorem reserveOrAdoptWorkflowRun_ok {options : ReservationOptions}
    (h : reserveOrAdoptWorkflowRun db options now = .ok db') :
    QueueChange sha256 forced db none db' := by
  simp only [reserveOrAdoptWorkflowRun, bind_ok] at h
  obtain ⟨_, -, digest, -, h⟩ := h
  split at h
  · simp only [bind_ok, pure_ok] at h
    obtain ⟨_, -, rfl⟩ := h
    exact .same
  · exact .reserved (reserveWorkflowRunInTransaction_ok h)

end

/-! ## Every operation -/

/-- The operations that end a run without a look at its durable status. -/
def QueueOperation.forces : QueueOperation → Bool
  | .fail .. | .cancel .. => true
  | _ => false

theorem execute_change {sha256 : String → String} {db db' : Db} {operation : QueueOperation}
    {answer : QueueAnswer} (h : execute sha256 db operation = .ok (db', answer)) :
    QueueChange sha256 operation.forces db answer.claimed db' := by
  cases operation with
  | reserve options now =>
      simp only [execute, map_ok, plainAnswer, Prod.mk.injEq] at h
      obtain ⟨reserved, hreserved, rfl, rfl⟩ := h
      exact reserveWorkflowRun_ok hreserved
  | reserveOrAdopt options now =>
      simp only [execute, map_ok, plainAnswer, Prod.mk.injEq] at h
      obtain ⟨reserved, hreserved, rfl, rfl⟩ := h
      exact reserveOrAdoptWorkflowRun_ok hreserved
  | claim runId runnerId claimToken leaseMs now options =>
      simp only [execute, Except.ok.injEq] at h
      cases hclaim : claimRun sha256 db runId runnerId claimToken leaseMs now options with
      | none =>
          rw [hclaim] at h
          cases h
          exact .same
      | some claimed =>
          rw [hclaim] at h
          cases h
          exact claimRun_ok hclaim
  | claimNext runnerId claimToken leaseMs now exclude =>
      simp only [execute] at h
      split at h
      · next hclaim =>
          cases h
          exact claimNextWorkflowRun_ok hclaim
      · cases h
        exact .same
  | renew => cases h; exact renewWorkflowRunClaim_change
  | markRunning => cases h; exact markWorkflowRunRunning_change
  | park => cases h; exact releaseRunClaim_change
  | complete => cases h; exact releaseRunClaim_change
  | parkForRunnerNoProgress =>
      simp only [execute, map_ok, plainAnswer, Prod.mk.injEq] at h
      obtain ⟨_, hparked, rfl, rfl⟩ := h
      exact parkForError_ok hparked
  | parkForSourceChange =>
      simp only [execute, map_ok, plainAnswer, Prod.mk.injEq] at h
      obtain ⟨_, hparked, rfl, rfl⟩ := h
      exact parkForError_ok hparked
  | parkForAmbiguousEffect =>
      simp only [execute, map_ok, plainAnswer, Prod.mk.injEq] at h
      obtain ⟨_, hparked, rfl, rfl⟩ := h
      exact parkWorkflowRunForAmbiguousEffect_ok hparked
  | beginInteractionTimeout =>
      simp only [execute, map_ok, plainAnswer, Prod.mk.injEq] at h
      obtain ⟨_, htimeout, rfl, rfl⟩ := h
      exact beginWorkflowRunInteractionTimeout_ok htimeout
  | pauseParked => cases h; exact pauseParkedWorkflowRun_change
  | resumePausedInteraction => cases h; exact resumePausedInteraction_change
  | requestResume => cases h; exact requestWorkflowRunResume_change
  | fail => cases h; exact terminalRun_change
  | cancel =>
      simp only [execute, map_ok, plainAnswer, Prod.mk.injEq] at h
      obtain ⟨_, hcancelled, rfl, rfl⟩ := h
      exact cancelWorkflowRun_ok hcancelled
  | cancelStale =>
      simp only [execute, map_ok, plainAnswer, Prod.mk.injEq] at h
      obtain ⟨_, hcancelled, rfl, rfl⟩ := h
      exact cancelStaleWorkflowRun_ok hcancelled
  | expireServerLeases => cases h; exact expireServerLeases_change

end PiWorkflows
