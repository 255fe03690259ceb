import PiWorkflows.Proofs.QueueLease
import PiWorkflows.Workflows.RunStore

/-!
# What is left open behind a run that has ended

A run that fails, times out or is cancelled should leave nothing open behind it:
pruning takes any open row for a reason to keep the run. Four operations end a
run, and each closes tables of its own choice. `NothingOpen` lists the six
tables; `ClosedBefore` says, for each operation, what it does not close itself
and so has to find closed, and the two are equivalent in the state right after
the operation.

Only the cancellations reach every table but one: they forget the follow-ups,
which the engine's commit closes. A failed run keeps its validating submissions,
its effects and its follow-ups. The engine's commit closes the follow-ups and the
attempts its steps tell about, and no requests, submissions or effects; for a run
that timed out it does not close the active time either.
-/

namespace PiWorkflows

open Fallible

/-! ## Open rows -/

def NoPendingRequest (db : Db) (runId : String) : Prop :=
  db.requests.Holds fun _ request => request.runId = runId → request.status ≠ .pending

def NoValidatingSubmission (db : Db) (runId : String) : Prop :=
  db.submissions.Holds fun _ submission =>
    isRequestOf db runId submission.requestId = true → submission.outcome ≠ .validating

/-- Except for the attempts in the list. -/
def NoOpenAttemptBut (recorded : List String) (db : Db) (runId : String) : Prop :=
  db.attempts.Holds fun id attempt =>
    attempt.runId = runId → id ∉ recorded → attempt.status.isOpen = false

/-- Except for the intervals of the attempts in the list. -/
def NoOpenIntervalBut (recorded : List String) (db : Db) (runId : String) : Prop :=
  db.intervals.Holds fun key interval => ∀ attempt, db.attempts.get? key.1 = some attempt →
    attempt.runId = runId → key.1 ∉ recorded → interval.endedAt ≠ none

def NoOpenEffect (db : Db) (runId : String) : Prop :=
  db.effects.Holds fun _ effect => isOpenRunEffect runId effect = false

def NoQueuedFollowUp (db : Db) (runId : String) : Prop :=
  db.followUps.Holds fun _ followUp => followUp.runId = runId → followUp.status ≠ .queued

/-- Nothing of the run is open. -/
structure NothingOpen (db : Db) (runId : String) : Prop where
  requests : NoPendingRequest db runId
  submissions : NoValidatingSubmission db runId
  attempts : NoOpenAttemptBut [] db runId
  intervals : NoOpenIntervalBut [] db runId
  effects : NoOpenEffect db runId
  followUps : NoQueuedFollowUp db runId

/-! ## Operations that end a run -/

/-- The outcomes that stop a run short. -/
structure StopStatus where
  status : RunStatus
  stops : status ∈ [RunStatus.failed, .timed_out, .cancelled]

inductive EndingOperation where
  | commit (options : CommitOptions) (event : TraceEventDraft) (outcome : StopStatus)
      (error : Option String) (finalOutput : Option Json)
  | fail (claimToken : Option String) (errorCode errorMessage : String) (now : Int)
  | cancel (claimToken : Option String) (now : Int)
  | cancelStale (controlId : String) (now : Int)

/-- An operation of the queue that was accepted. -/
def acceptedDb (r : Db × Bool) : Option Db :=
  if r.2 then some r.1 else none

/-- The operation on a run, with the database after it if it ended the run. -/
def endRun (sha256 : String → String) (dates : HostDates) (db : Db) (runId : String) :
    EndingOperation → Except String (Option Db)
  | .commit options event outcome error finalOutput =>
      (commitTransition sha256 dates db runId options
        ⟨event, .finish outcome.status error finalOutput⟩).map some
  | .fail claimToken errorCode errorMessage now =>
      .ok (acceptedDb (failWorkflowRun sha256 db runId claimToken errorCode errorMessage now))
  | .cancel claimToken now => (cancelWorkflowRun sha256 db runId claimToken now).map acceptedDb
  | .cancelStale controlId now => (cancelStaleWorkflowRun db runId controlId now).map acceptedDb

/-- The attempts the steps of a run tell about. -/
def recordedAttempts (saved : RunState) : List String :=
  saved.steps.map StepRecord.attemptId

/-- The effect a commit leaves for the queue. -/
def settlementId (sha256 : String → String) (runId : String) (status : RunStatus) : String :=
  workflowEffectId sha256 (resourceIdFor sha256 "run" runId) (settlementEffectType status)
    s!"{runId}:{status.text}"

/-- An effect the server's lifecycle projection settles in the commit. -/
def isSettledByProjection (options : CommitOptions) (effect : EffectRow) : Prop :=
  options.activeGeneration.isSome = true ∧ effect.effectType = "run.settle_queue" ∧
    effect.status = .pending

/-- What the operation has to find closed. -/
def ClosedBefore (sha256 : String → String) (db : Db) (runId : String) : EndingOperation → Prop
  | .commit options _ outcome _ _ =>
      NoPendingRequest db runId ∧ NoValidatingSubmission db runId ∧
      NoOpenAttemptBut (recordedAttempts options.saved) db runId ∧
      (outcome.status = .timed_out → (db.runs.get? runId).any RunRow.paused = false →
        NoOpenIntervalBut (recordedAttempts options.saved) db runId) ∧
      db.effects.Holds (fun _ effect => isOpenRunEffect runId effect = true →
        isSettledByProjection options effect) ∧
      (options.activeGeneration = none → (db.runQueue.get? runId).isSome = true →
        (db.effects.get? (settlementId sha256 runId outcome.status)).isSome = true)
  | .fail .. =>
      NoValidatingSubmission db runId ∧ NoOpenEffect db runId ∧ NoQueuedFollowUp db runId
  | .cancel .. | .cancelStale .. => NoQueuedFollowUp db runId

/-! ## One table at a time -/

section

variable {db db' : Db} {runId : String} {now : Int}

theorem cancelPendingRequests_noPending : NoPendingRequest (cancelPendingRequests db runId now) runId := by
  refine Table.holds_updateWhere.2 ?_
  intro id request _ hrun
  split at hrun
  · next hpending =>
      rw [if_pos hpending]
      exact fun h => by cases h
  · next hpending =>
      rw [if_neg hpending]
      intro hstatus
      exact hpending (by simp [hrun, hstatus])

theorem isRequestOf_cancelPendingRequests (requestId : String) :
    isRequestOf (cancelPendingRequests db runId now) runId requestId =
      isRequestOf db runId requestId := by
  unfold isRequestOf cancelPendingRequests
  dsimp only
  rw [Table.get?_updateWhere, Option.any_map]
  congr 1
  funext request
  show decide ((if _ then _ else _ : RequestRow).runId = runId) = _
  split <;> rfl

theorem rejectValidating_noValidating {error : String} :
    NoValidatingSubmission (rejectValidating db (isRequestOf db runId) error) runId := by
  refine Table.holds_updateWhere.2 ?_
  intro id submission _ hrun
  have hrequest : isRequestOf (rejectValidating db (isRequestOf db runId) error) runId =
    isRequestOf db runId := rfl
  rw [hrequest] at hrun
  split at hrun
  · next hvalidating =>
      rw [if_pos hvalidating]
      exact fun h => by cases h
  · next hvalidating =>
      rw [if_neg hvalidating]
      intro houtcome
      exact hvalidating (by simp [hrun, houtcome])

theorem closeAttempts_noOpen {status : AttemptStatus} {error : String}
    (hclosed : status.isOpen = false) :
    NoOpenAttemptBut [] (closeAttempts db runId now status error) runId := by
  refine Table.holds_updateWhere.2 ?_
  intro id attempt _ hrun _
  split at hrun
  · next hopen =>
      rw [if_pos hopen]
      exact hclosed
  · next hopen =>
      rw [if_neg hopen]
      by_contra hstatus
      exact hopen (by simpa [hrun] using hstatus)

theorem closeRunTime_noOpen : NoOpenIntervalBut [] (db.closeRunTime runId) runId := by
  refine Table.holds_updateWhere.2 ?_
  intro key interval _ attempt hattempt hrun _
  have hattempt : db.attempts.get? key.1 = some attempt := hattempt
  split
  · exact Option.some_ne_none _
  · next hopen =>
      intro hended
      exact hopen (by simp [hended, hattempt, hrun])

/-- The intervals are closed whatever else the attempts became. -/
theorem NoOpenIntervalBut.of_attempts {recorded : List String}
    (h : NoOpenIntervalBut recorded db runId) (hintervals : db'.intervals = db.intervals)
    (hattempts : ∀ id attempt', db'.attempts.get? id = some attempt' →
      ∃ attempt, db.attempts.get? id = some attempt ∧ attempt.runId = attempt'.runId) :
    NoOpenIntervalBut recorded db' runId := by
  intro key interval hkey attempt' hattempt' hrun hnot
  rw [hintervals] at hkey
  obtain ⟨attempt, hattempt, heq⟩ := hattempts key.1 attempt' hattempt'
  exact h key interval hkey attempt hattempt (heq.trans hrun) hnot

theorem closeAttempts_runId {status : AttemptStatus} {error id : String} {attempt' : AttemptRow}
    (h : (closeAttempts db runId now status error).attempts.get? id = some attempt') :
    ∃ attempt, db.attempts.get? id = some attempt ∧ attempt.runId = attempt'.runId := by
  unfold closeAttempts at h
  dsimp only at h
  rw [Table.get?_updateWhere] at h
  obtain ⟨attempt, hattempt, rfl⟩ := Option.map_eq_some_iff.1 h
  refine ⟨attempt, hattempt, ?_⟩
  split <;> rfl

theorem cancelRunEffects_noOpen {error : String} :
    NoOpenEffect (cancelRunEffects db runId now error) runId := by
  refine Table.holds_updateWhere.2 ?_
  intro id effect _
  split
  · unfold isOpenRunEffect
    by_cases happlying : effect.status = .applying
    · simp [happlying]
    · simp [happlying]
  · next hopen => simpa using hopen

/-! ## The queue -/

theorem failWorkflowRunDependents_closed {error : String} :
    NothingOpen (failWorkflowRunDependents db runId now error) runId ↔
      NoValidatingSubmission db runId ∧ NoOpenEffect db runId ∧ NoQueuedFollowUp db runId := by
  have hsubmissions : NoValidatingSubmission (failWorkflowRunDependents db runId now error) runId ↔
      NoValidatingSubmission db runId := by
    unfold NoValidatingSubmission failWorkflowRunDependents
    simp only [isRequestOf_cancelPendingRequests]
    exact Iff.rfl
  constructor
  · intro h
    exact ⟨hsubmissions.1 h.submissions, h.effects, h.followUps⟩
  · rintro ⟨hvalidating, heffects, hfollowUps⟩
    refine ⟨cancelPendingRequests_noPending, hsubmissions.2 hvalidating, ?_, ?_, heffects,
      hfollowUps⟩
    · exact closeAttempts_noOpen rfl
    · exact closeRunTime_noOpen.of_attempts rfl fun _ _ h => closeAttempts_runId h

theorem cancelWorkflowRunDependents_closed {actorId error : String} :
    NothingOpen (cancelWorkflowRunDependents db runId now actorId error) runId ↔
      NoQueuedFollowUp db runId := by
  constructor
  · intro h
    exact h.followUps
  · intro hfollowUps
    refine ⟨cancelPendingRequests_noPending, ?_, ?_, ?_, ?_, hfollowUps⟩
    · unfold NoValidatingSubmission cancelWorkflowRunDependents
      simp only [isRequestOf_cancelPendingRequests]
      exact rejectValidating_noValidating
    · exact closeAttempts_noOpen rfl
    · exact closeRunTime_noOpen.of_attempts rfl fun _ _ h => closeAttempts_runId h
    · exact cancelRunEffects_noOpen

/-- Only runs, queue entries, leases and the like differ. -/
structure SameDependents (db db' : Db) : Prop where
  requests : db'.requests = db.requests
  submissions : db'.submissions = db.submissions
  attempts : db'.attempts = db.attempts
  intervals : db'.intervals = db.intervals
  effects : db'.effects = db.effects
  followUps : db'.followUps = db.followUps

theorem SameDependents.validating (h : SameDependents db db') :
    NoValidatingSubmission db' runId ↔ NoValidatingSubmission db runId := by
  unfold NoValidatingSubmission isRequestOf
  rw [h.submissions, h.requests]

theorem SameDependents.openEffect (h : SameDependents db db') :
    NoOpenEffect db' runId ↔ NoOpenEffect db runId := by
  unfold NoOpenEffect
  rw [h.effects]

theorem SameDependents.queuedFollowUp (h : SameDependents db db') :
    NoQueuedFollowUp db' runId ↔ NoQueuedFollowUp db runId := by
  unfold NoQueuedFollowUp
  rw [h.followUps]

theorem nothingOpen_bumpRun {k : String} : NothingOpen (db.bumpRun k) runId ↔ NothingOpen db runId :=
  ⟨fun h => ⟨h.requests, h.submissions, h.attempts, h.intervals, h.effects, h.followUps⟩,
    fun h => ⟨h.requests, h.submissions, h.attempts, h.intervals, h.effects, h.followUps⟩⟩

section

variable {sha256 : String → String} {claimToken : Option String} {code error : String}

theorem released_sameDependents {runStatus : StoredRunStatus} {queueStatus : QueueStatus} :
    SameDependents db
      (if claimToken.isSome then
        (setTerminal db runId now runStatus queueStatus code error).updateLease runId Lease.release
      else setTerminal db runId now runStatus queueStatus code error) := by
  split
  · exact ⟨rfl, rfl, rfl, rfl, rfl, rfl⟩
  · exact ⟨rfl, rfl, rfl, rfl, rfl, rfl⟩

theorem terminalRun_failed
    (h : terminalRun sha256 db runId claimToken .failed code error now = (db', true)) :
    ∃ released, SameDependents db released ∧
      db' = (failWorkflowRunDependents released runId now error).bumpRun runId := by
  unfold terminalRun at h
  split at h
  · cases h
  · split at h
    · simp only [Prod.mk.injEq, and_true] at h
      exact ⟨_, released_sameDependents, h.symm⟩
    · cases h

theorem terminalRun_cancelled
    (h : terminalRun sha256 db runId claimToken .cancelled code error now = (db', true)) :
    ∃ released actorId, SameDependents db released ∧
      db' = (cancelWorkflowRunDependents released runId now actorId error).bumpRun runId := by
  unfold terminalRun at h
  split at h
  · cases h
  · split at h
    · simp only [Prod.mk.injEq, and_true] at h
      exact ⟨_, _, released_sameDependents, h.symm⟩
    · cases h

theorem failWorkflowRun_nothingOpen_iff
    (h : failWorkflowRun sha256 db runId claimToken code error now = (db', true)) :
    NothingOpen db' runId ↔
      NoValidatingSubmission db runId ∧ NoOpenEffect db runId ∧ NoQueuedFollowUp db runId := by
  obtain ⟨released, hsame, rfl⟩ := terminalRun_failed h
  rw [nothingOpen_bumpRun, ← hsame.validating, ← hsame.openEffect, ← hsame.queuedFollowUp]
  exact failWorkflowRunDependents_closed

theorem cancelStaleWorkflowRun_nothingOpen_iff {controlId : String}
    (h : cancelStaleWorkflowRun db runId controlId now = .ok (db', true)) :
    NothingOpen db' runId ↔ NoQueuedFollowUp db runId := by
  unfold cancelStaleWorkflowRun at h
  split at h
  · cases h
  · split at h
    · cases h
    · simp only [bind_ok, require_ok, pure_ok, Prod.mk.injEq, and_true] at h
      obtain ⟨_, -, rfl⟩ := h
      have hsame : SameDependents db (setTerminal (db.updateLease runId fun lease =>
          ⟨lease.generation + 1, none⟩) runId now .cancelled .cancelled "cancelled"
          "Workflow run cancelled") := ⟨rfl, rfl, rfl, rfl, rfl, rfl⟩
      rw [nothingOpen_bumpRun, ← hsame.queuedFollowUp]
      exact cancelWorkflowRunDependents_closed

theorem cancelWorkflowRun_nothingOpen_iff
    (h : cancelWorkflowRun sha256 db runId claimToken now = .ok (db', true)) :
    NothingOpen db' runId ↔ NoQueuedFollowUp db runId := by
  unfold cancelWorkflowRun at h
  dsimp only at h
  split at h
  · have hended : terminalRun sha256 db runId claimToken .cancelled "cancelled"
        "Workflow run cancelled" now = (db', true) := Except.ok.inj h
    obtain ⟨released, actorId, hsame, rfl⟩ := terminalRun_cancelled hended
    rw [nothingOpen_bumpRun, ← hsame.queuedFollowUp]
    exact cancelWorkflowRunDependents_closed
  · exact cancelStaleWorkflowRun_nothingOpen_iff h

end

end

/-! ## The engine's commit -/

section

variable {sha256 : String → String} {dates : HostDates} {db : Db} {state : RunState} {now : Int}

theorem outcomeStatus_closed (outcome : NodeOutcome) : (outcomeStatus outcome).isOpen = false := by
  cases outcome <;> rfl

/-- What recording the attempts of some steps leaves behind: each of them is
closed with its active time, and belongs to the run it belonged to. -/
structure Synced (recorded : List String) (db db' : Db) : Prop where
  attempts_other : ∀ id, id ∉ recorded → db'.attempts.get? id = db.attempts.get? id
  attempts_own : ∀ id, id ∈ recorded → ∃ attempt, db'.attempts.get? id = some attempt ∧
    attempt.status.isOpen = false ∧
    ∀ before, db.attempts.get? id = some before → attempt.runId = before.runId
  intervals_other : ∀ key, key.1 ∉ recorded → db'.intervals.get? key = db.intervals.get? key
  intervals_own : ∀ key, key.1 ∈ recorded → ∀ interval,
    db'.intervals.get? key = some interval → interval.endedAt ≠ none
  requests : db'.requests = db.requests
  submissions : db'.submissions = db.submissions
  effects : db'.effects = db.effects
  followUps : db'.followUps = db.followUps

theorem Synced.trans {first second : List String} {db₁ db₂ : Db} (h : Synced first db db₁)
    (h' : Synced second db₁ db₂) : Synced (first ++ second) db db₂ := by
  constructor
  · intro id hid
    rw [List.mem_append, not_or] at hid
    rw [h'.attempts_other id hid.2, h.attempts_other id hid.1]
  · intro id hid
    by_cases hsecond : id ∈ second
    · obtain ⟨attempt, hattempt, hclosed, hbefore⟩ := h'.attempts_own id hsecond
      refine ⟨attempt, hattempt, hclosed, ?_⟩
      intro before hid₀
      by_cases hfirst : id ∈ first
      · obtain ⟨middle, hmiddle, -, hrun⟩ := h.attempts_own id hfirst
        rw [hbefore middle hmiddle, hrun before hid₀]
      · exact hbefore before (by rw [h.attempts_other id hfirst]; exact hid₀)
    · have hfirst : id ∈ first := (List.mem_append.1 hid).resolve_right hsecond
      obtain ⟨attempt, hattempt, hclosed, hbefore⟩ := h.attempts_own id hfirst
      exact ⟨attempt, by rw [h'.attempts_other id hsecond]; exact hattempt, hclosed, hbefore⟩
  · intro key hkey
    rw [List.mem_append, not_or] at hkey
    rw [h'.intervals_other key hkey.2, h.intervals_other key hkey.1]
  · intro key hkey interval hinterval
    by_cases hsecond : key.1 ∈ second
    · exact h'.intervals_own key hsecond interval hinterval
    · rw [h'.intervals_other key hsecond] at hinterval
      exact h.intervals_own key ((List.mem_append.1 hkey).resolve_right hsecond) interval hinterval
  · exact h'.requests.trans h.requests
  · exact h'.submissions.trans h.submissions
  · exact h'.effects.trans h.effects
  · exact h'.followUps.trans h.followUps

theorem syncStep_synced (step : StepRecord) :
    Synced [step.attemptId] db (syncStep dates state now db step) := by
  have hattempts : ∀ id, (syncStep dates state now db step).attempts.get? id =
      if id = step.attemptId then
        some (((db.attempts.get? step.attemptId).map fun attempt =>
          { attempt with
            status := outcomeStatus step.outcome, error := step.error
            finishedAt := dates.parse step.finishedAt, updatedAt := now }).getD
          { runId := state.runId, nodeId := step.nodeId
            attemptNumber :=
              nextAttemptNumber (db.closeAttemptTime step.attemptId) state.runId step.nodeId
            status := outcomeStatus step.outcome, error := step.error
            startedAt := dates.parse step.startedAt, finishedAt := dates.parse step.finishedAt
            updatedAt := now })
      else db.attempts.get? id := by
    intro id
    exact Table.get?_insert?_getD_update db.attempts step.attemptId id _ _
  have hintervals : ∀ key, (syncStep dates state now db step).intervals.get? key =
      (db.intervals.get? key).map fun interval =>
        if key.1 = step.attemptId ∧ interval.endedAt = none then
          { interval with endedAt := some interval.observedAt }
        else interval := by
    intro key
    show (Table.updateWhere _ _ db.intervals).get? key = _
    rw [Table.get?_updateWhere]
    simp only [decide_eq_true_eq]
  constructor
  · intro id hid
    rw [hattempts, if_neg (fun h => hid (by rw [h]; exact List.mem_cons_self))]
  · intro id hid
    obtain rfl := List.mem_singleton.1 hid
    rw [hattempts, if_pos rfl]
    refine ⟨_, rfl, ?_, ?_⟩
    · cases db.attempts.get? step.attemptId with
      | none => exact outcomeStatus_closed step.outcome
      | some attempt => exact outcomeStatus_closed step.outcome
    · intro before hbefore
      rw [hbefore, Option.map_some, Option.getD_some]
  · intro key hkey
    rw [hintervals]
    have hne : key.1 ≠ step.attemptId := fun h => hkey (by rw [h]; exact List.mem_cons_self)
    simp [hne]
  · intro key hkey interval hinterval
    rw [hintervals] at hinterval
    obtain ⟨before, -, rfl⟩ := Option.map_eq_some_iff.1 hinterval
    have heq : key.1 = step.attemptId := List.mem_singleton.1 hkey
    split
    · exact Option.some_ne_none _
    · next hopen => exact fun hended => hopen ⟨heq, hended⟩
  · rfl
  · rfl
  · rfl
  · rfl

theorem syncSteps_synced (steps : List StepRecord) (db : Db) :
    Synced (steps.map StepRecord.attemptId) db (steps.foldl (syncStep dates state now) db) := by
  induction steps generalizing db with
  | nil =>
      show Synced [] db db
      refine ⟨?_, ?_, ?_, ?_, rfl, rfl, rfl, rfl⟩
      · exact fun _ _ => rfl
      · exact fun _ hid => absurd hid List.not_mem_nil
      · exact fun _ _ => rfl
      · exact fun _ hkey => absurd hkey List.not_mem_nil
  | cons step rest ih =>
      rw [List.foldl_cons]
      exact (syncStep_synced step).trans (ih (syncStep dates state now db step))

theorem Synced.noOpenAttempt {recorded : List String} {db' : Db} {runId : String}
    (h : Synced recorded db db') :
    NoOpenAttemptBut [] db' runId ↔ NoOpenAttemptBut recorded db runId := by
  constructor
  · intro hclosed id attempt hattempt hrun hid
    exact hclosed id attempt (by rw [h.attempts_other id hid]; exact hattempt) hrun
      List.not_mem_nil
  · intro hclosed id attempt hattempt hrun _
    by_cases hid : id ∈ recorded
    · obtain ⟨own, hown, hshut, -⟩ := h.attempts_own id hid
      rw [hown] at hattempt
      cases hattempt
      exact hshut
    · rw [h.attempts_other id hid] at hattempt
      exact hclosed id attempt hattempt hrun hid

theorem Synced.noOpenInterval {recorded : List String} {db' : Db} {runId : String}
    (h : Synced recorded db db') :
    NoOpenIntervalBut [] db' runId ↔ NoOpenIntervalBut recorded db runId := by
  constructor
  · intro hclosed key interval hkey attempt hattempt hrun hid
    exact hclosed key interval (by rw [h.intervals_other key hid]; exact hkey) attempt
      (by rw [h.attempts_other key.1 hid]; exact hattempt) hrun List.not_mem_nil
  · intro hclosed key interval hkey attempt hattempt hrun _
    by_cases hid : key.1 ∈ recorded
    · exact h.intervals_own key hid interval hkey
    · rw [h.intervals_other key hid] at hkey
      rw [h.attempts_other key.1 hid] at hattempt
      exact hclosed key interval hkey attempt hattempt hrun hid

/-- The projection of a run that was stopped in a status. -/
structure Stopped (runId : String) (run : RunRow) (saved : RunState) (status : RunStatus)
    (state : RunState) : Prop where
  running : run.status = .running
  runId : state.runId = runId
  status : state.status = status
  paused : state.paused = run.paused
  steps : state.steps = saved.steps
  noAttempt : state.currentAttemptId = none

theorem runStatus?_running {status : StoredRunStatus} :
    status.runStatus? = some .running ↔ status = .running := by
  cases status <;> simp [StoredRunStatus.runStatus?]

theorem applyExecutionTransition_stopped {runId : String} {run : RunRow} {saved current : RunState}
    {definition : DefinitionSnapshot} {event : TraceEventDraft} {status : RunStatus}
    {error : Option String} {finalOutput : Option Json} {finishedAt : String}
    (hcurrent : materializeRunState dates db runId run saved = .ok current)
    (h : applyExecutionTransition dates.parse current definition
      ⟨event, .finish status error finalOutput⟩ finishedAt = .ok state) :
    Stopped runId run saved status state := by
  unfold materializeRunState at hcurrent
  simp only [bind_ok, orThrow_ok, pure_ok] at hcurrent
  obtain ⟨stored, hstored, rfl⟩ := hcurrent
  unfold applyExecutionTransition at h
  simp only [bind_ok, require_ok] at h
  obtain ⟨_, hrunning, h⟩ := h
  unfold finish at h
  simp only [bind_ok, require_ok, onlyIf_ok, pure_ok] at h
  obtain ⟨_, -, _, -, rfl⟩ := h
  have hstatus : stored = .running := by
    rcases hrunning with hrunning | ⟨-, hkind⟩
    · exact hrunning
    · cases hkind
  exact ⟨runStatus?_running.1 (by rw [hstored, hstatus]), rfl, rfl, rfl, rfl, rfl⟩

/-- The tables a stopped run's projection is written to, one after the other. -/
theorem endRun_commit {runId : String} {options : CommitOptions} {event : TraceEventDraft}
    {outcome : StopStatus} {error : Option String} {finalOutput : Option Json} {db' : Db}
    (h : endRun sha256 dates db runId (.commit options event outcome error finalOutput) =
      .ok (some db')) :
    ∃ leases run state, db.runs.get? runId = some run ∧
      Stopped runId run options.saved outcome.status state ∧
      db' = writeProjection sha256 dates { db with leases := leases } runId options
        ⟨event, .finish outcome.status error finalOutput⟩ .running state := by
  unfold endRun at h
  simp only [map_ok, Option.some.injEq] at h
  obtain ⟨_, h, rfl⟩ := h
  unfold commitTransition at h
  simp only [bind_ok, orThrow_ok, pure_ok] at h
  obtain ⟨_, hauthorized, run, hrun, current, hcurrent, state, hstate, _, hprepared, _, -, rfl⟩ := h
  obtain ⟨leases, rfl⟩ := assertWriteAuthority_leases hauthorized
  have hstopped := applyExecutionTransition_stopped hcurrent hstate
  obtain rfl := pure_ok.1 hprepared
  exact ⟨leases, run, state, hrun, hstopped, by rw [hstopped.running]⟩

section

variable (sha256 dates db state now)

/-- Requests, submissions, attempts and follow-ups are not the projection's. -/
theorem persistRunState_frame (previous : StoredRunStatus) (revision : Nat) :
    (persistRunState sha256 dates db state now previous revision).requests = db.requests ∧
      (persistRunState sha256 dates db state now previous revision).submissions = db.submissions ∧
      (persistRunState sha256 dates db state now previous revision).attempts = db.attempts ∧
      (persistRunState sha256 dates db state now previous revision).followUps = db.followUps := by
  unfold persistRunState enqueueRunSettlementEffect
  dsimp only
  split
  · split
    · split <;> exact ⟨rfl, rfl, rfl, rfl⟩
    · split <;> exact ⟨rfl, rfl, rfl, rfl⟩
  · split <;> exact ⟨rfl, rfl, rfl, rfl⟩

theorem persistRunState_intervals (previous : StoredRunStatus) (revision : Nat) :
    (persistRunState sha256 dates db state now previous revision).intervals =
      if state.paused = true ∨ state.status ∈ [RunStatus.completed, .failed, .cancelled] then
        (db.closeRunTime state.runId).intervals
      else db.intervals := by
  unfold persistRunState enqueueRunSettlementEffect
  dsimp only
  split
  · split
    · split <;> rfl
    · split <;> rfl
  · split <;> rfl

/-- The effect a stopped run leaves for its queue entry, if it has one. -/
theorem persistRunState_effects (revision : Nat) {status : RunStatus} (hstatus : state.status = status)
    (hstops : status ∈ [RunStatus.failed, .timed_out, .cancelled]) :
    ∃ effect : EffectRow, effect.sourceRun = some state.runId ∧ effect.ownerScope = .run ∧
      effect.effectType = "run.settle_queue" ∧ effect.status = .pending ∧
      (persistRunState sha256 dates db state now .running revision).effects =
        if (db.runQueue.get? state.runId).isSome = true then
          (db.effects.insert? (settlementId sha256 state.runId status) effect).getD db.effects
        else db.effects := by
  have hended : state.status ≠ .running ∧ state.status.stored ≠ .running ∧
      settlementEffectType state.status = "run.settle_queue" := by
    rw [hstatus]
    simp only [List.mem_cons, List.not_mem_nil, or_false] at hstops
    rcases hstops with rfl | rfl | rfl
    · decide
    · decide
    · decide
  obtain ⟨hrunning, hstored, htype⟩ := hended
  unfold persistRunState enqueueRunSettlementEffect
  dsimp only
  rw [if_pos ⟨hrunning, hstored⟩]
  have hqueue : ∀ closed : Db, closed.runQueue = db.runQueue → closed.effects = db.effects →
      ∀ effect, (if (closed.runQueue.get? state.runId).isNone = true then closed
        else { closed with
          effects := (closed.effects.insert? (settlementEffectId sha256 state) effect).getD
            closed.effects }).effects =
        if (db.runQueue.get? state.runId).isSome = true then
          (db.effects.insert? (settlementId sha256 state.runId status) effect).getD db.effects
        else db.effects := by
    intro closed hqueue heffects effect
    rw [hqueue, heffects]
    have hid : settlementEffectId sha256 state = settlementId sha256 state.runId status := by
      unfold settlementEffectId settlementId
      rw [hstatus]
    cases db.runQueue.get? state.runId with
    | none => exact heffects
    | some row => rw [← hid]; rfl
  refine ⟨_, rfl, rfl, htype, rfl, hqueue _ ?_ ?_ _⟩
  · split <;> rfl
  · split <;> rfl

theorem transitionFollowUps_noQueued
    (hstops : state.status ∈ [RunStatus.failed, .timed_out, .cancelled]) :
    NoQueuedFollowUp (transitionFollowUpsForRunState db state now) state.runId := by
  have hended : state.status ∉ [RunStatus.running, .waiting, .completed] := by
    simp only [List.mem_cons, List.not_mem_nil, or_false] at hstops
    rcases hstops with h | h | h
    · rw [h]; decide
    · rw [h]; decide
    · rw [h]; decide
  unfold transitionFollowUpsForRunState
  rw [if_neg hended]
  refine Table.holds_updateWhere.2 ?_
  intro id followUp _ hrun
  split at hrun
  · next hqueued =>
      rw [if_pos hqueued]
      exact fun h => by cases h
  · next hqueued =>
      rw [if_neg hqueued]
      intro hstatus
      exact hqueued (by simp [hrun, hstatus])

theorem transitionFollowUps_frame :
    (transitionFollowUpsForRunState db state now).requests = db.requests ∧
      (transitionFollowUpsForRunState db state now).submissions = db.submissions ∧
      (transitionFollowUpsForRunState db state now).attempts = db.attempts ∧
      (transitionFollowUpsForRunState db state now).intervals = db.intervals ∧
      (transitionFollowUpsForRunState db state now).effects = db.effects := by
  unfold transitionFollowUpsForRunState
  split <;> exact ⟨rfl, rfl, rfl, rfl, rfl⟩

/-- The last step of the server's commit: the queue entry follows the run. -/
theorem applyLifecycleProjection_stopped (runId eventType : String) (generation : Nat)
    (hstops : state.status ∈ [RunStatus.failed, .timed_out, .cancelled]) :
    ∃ runQueue leases,
      applyLifecycleProjection db runId now state eventType generation =
        settleRunEffect { db with runQueue := runQueue, leases := leases } runId now
          "run.settle_queue" := by
  have hended : state.status ≠ .running ∧ state.status ≠ .waiting := by
    simp only [List.mem_cons, List.not_mem_nil, or_false] at hstops
    rcases hstops with h | h | h
    · rw [h]; decide
    · rw [h]; decide
    · rw [h]; decide
  unfold applyLifecycleProjection
  rw [if_neg hended.1, if_neg hended.2]
  exact ⟨_, _, rfl⟩

end

/-- The database at the end of a commit, before and after the server's part. -/
def settledBy (options : CommitOptions) (synced : Db) (state : RunState) (eventType : String) : Db :=
  match options.activeGeneration with
  | some generation =>
      applyLifecycleProjection synced state.runId options.now state eventType generation
  | none => synced

theorem writeProjection_stopped {options : CommitOptions} {event : TraceEventDraft}
    {outcome : StopStatus} {error : Option String} {finalOutput : Option Json} {run : RunRow}
    (hstopped : Stopped state.runId run options.saved outcome.status state) :
    writeProjection sha256 dates db state.runId options
        ⟨event, .finish outcome.status error finalOutput⟩ .running state =
      settledBy options
        (options.saved.steps.foldl (syncStep dates state options.now)
          (transitionFollowUpsForRunState
            (persistRunState sha256 dates db state options.now .running
              (options.store.revision + 1)) state options.now))
        state event.type := by
  unfold writeProjection syncNodeAttempts
  dsimp only
  rw [hstopped.noAttempt, hstopped.steps]
  rfl

theorem settledBy_eq (db : Db) (options : CommitOptions) (eventType : String)
    (hstops : state.status ∈ [RunStatus.failed, .timed_out, .cancelled]) :
    ∃ runQueue leases effects,
      settledBy options db state eventType =
        { db with runQueue := runQueue, leases := leases, effects := effects } := by
  unfold settledBy
  split
  · obtain ⟨runQueue, leases, h⟩ := applyLifecycleProjection_stopped db state options.now state.runId
      eventType _ hstops
    exact ⟨runQueue, leases, _, h⟩
  · exact ⟨db.runQueue, db.leases, db.effects, rfl⟩

theorem settledBy_noOpenEffect (db : Db) (options : CommitOptions) (eventType : String)
    (hstops : state.status ∈ [RunStatus.failed, .timed_out, .cancelled]) :
    NoOpenEffect (settledBy options db state eventType) state.runId ↔
      db.effects.Holds fun _ effect => isOpenRunEffect state.runId effect = true →
        isSettledByProjection options effect := by
  unfold settledBy isSettledByProjection
  cases hactive : options.activeGeneration with
  | none =>
      constructor
      · intro h id effect hid hopen
        rw [h id effect hid] at hopen
        cases hopen
      · intro h id effect hid
        rw [← Bool.not_eq_true]
        exact fun hopen => by cases (h id effect hid hopen).1
  | some generation =>
      obtain ⟨runQueue, leases, h⟩ := applyLifecycleProjection_stopped db state options.now
        state.runId eventType generation hstops
      dsimp only
      rw [h]
      unfold NoOpenEffect settleRunEffect
      rw [Table.holds_updateWhere]
      refine forall_congr' fun id => forall_congr' fun effect => forall_congr' fun _ => ?_
      simp only [decide_eq_true_eq]
      split
      · next hsettled =>
          constructor
          · exact fun _ _ => ⟨rfl, hsettled.2⟩
          · exact fun _ => by simp [isOpenRunEffect]
      · next hother =>
          rw [← Bool.not_eq_true]
          constructor
          · exact fun hclosed hopen => absurd hopen hclosed
          · intro hsettled hopen
            have hsource : effect.sourceRun = some state.runId := by
              unfold isOpenRunEffect at hopen
              exact (of_decide_eq_true hopen).1
            exact hother ⟨hsource, (hsettled hopen).2⟩

/-- The new effect counts unless the server settles it. -/
theorem persistRunState_openEffects (sha256 : String → String) (dates : HostDates) (db : Db)
    (now : Int) (options : CommitOptions) (revision : Nat) {status : RunStatus}
    (hstatus : state.status = status)
    (hstops : status ∈ [RunStatus.failed, .timed_out, .cancelled]) :
    (persistRunState sha256 dates db state now .running revision).effects.Holds
        (fun _ effect => isOpenRunEffect state.runId effect = true →
          isSettledByProjection options effect) ↔
      db.effects.Holds (fun _ effect => isOpenRunEffect state.runId effect = true →
          isSettledByProjection options effect) ∧
        (options.activeGeneration = none → (db.runQueue.get? state.runId).isSome = true →
          (db.effects.get? (settlementId sha256 state.runId status)).isSome = true) := by
  obtain ⟨effect, hsource, hscope, htype, hpending, heffects⟩ :=
    persistRunState_effects sha256 dates db state now revision hstatus hstops
  have hopen : isOpenRunEffect state.runId effect = true := by
    simp [isOpenRunEffect, hsource, hscope, hpending]
  have hsettled : isSettledByProjection options effect ↔ options.activeGeneration ≠ none := by
    rw [← Option.isSome_iff_ne_none]
    exact ⟨And.left, fun hactive => ⟨hactive, htype, hpending⟩⟩
  rw [heffects]
  by_cases hqueue : (db.runQueue.get? state.runId).isSome = true
  · rw [if_pos hqueue, Table.holds_insert?_getD]
    refine and_congr_right fun _ => ?_
    rw [hsettled]
    constructor
    · intro h hactive _
      rw [Option.isSome_iff_ne_none]
      exact fun hfree => h hfree hopen hactive
    · intro h hfree _ hactive
      have htaken := h hactive hqueue
      rw [hfree] at htaken
      cases htaken
  · rw [if_neg hqueue]
    exact ⟨fun h => ⟨h, fun _ hrow => absurd hrow hqueue⟩, And.left⟩

/-- A pause, a failure or a cancellation closes the active time. -/
theorem persistRunState_noOpenInterval (sha256 : String → String) (dates : HostDates) (db : Db)
    (now : Int) (previous : StoredRunStatus) (revision : Nat) (recorded : List String)
    {status : RunStatus} (hstatus : state.status = status)
    (hstops : status ∈ [RunStatus.failed, .timed_out, .cancelled]) :
    NoOpenIntervalBut recorded (persistRunState sha256 dates db state now previous revision)
        state.runId ↔
      (status = .timed_out → state.paused = false → NoOpenIntervalBut recorded db state.runId) := by
  have hframe := persistRunState_frame sha256 dates db state now previous revision
  have hintervals := persistRunState_intervals sha256 dates db state now previous revision
  unfold NoOpenIntervalBut
  rw [hframe.2.2.1, hintervals]
  split
  · next hcloses =>
      constructor
      · intro _ htimedOut hpaused
        rw [hpaused, hstatus, htimedOut] at hcloses
        exact absurd hcloses (by decide)
      · intro _ key interval hkey attempt hattempt hrun _
        exact closeRunTime_noOpen key interval hkey attempt hattempt hrun List.not_mem_nil
  · next hopen =>
      have htimedOut : status = .timed_out := by
        simp only [List.mem_cons, List.not_mem_nil, or_false] at hstops
        rcases hstops with rfl | rfl | rfl
        · exact absurd (.inr (by rw [hstatus]; decide)) hopen
        · rfl
        · exact absurd (.inr (by rw [hstatus]; decide)) hopen
      have hpaused : state.paused = false := by
        rw [← Bool.not_eq_true]
        exact fun hpaused => hopen (.inl hpaused)
      exact ⟨fun h _ _ => h, fun h => h htimedOut hpaused⟩

theorem commit_nothingOpen_iff {options : CommitOptions} {event : TraceEventDraft}
    {outcome : StopStatus} {error : Option String} {finalOutput : Option Json} {run : RunRow}
    (hrun : db.runs.get? state.runId = some run)
    (hstopped : Stopped state.runId run options.saved outcome.status state) :
    NothingOpen (writeProjection sha256 dates db state.runId options
        ⟨event, .finish outcome.status error finalOutput⟩ .running state) state.runId ↔
      ClosedBefore sha256 db state.runId (.commit options event outcome error finalOutput) := by
  have hstops : state.status ∈ [RunStatus.failed, .timed_out, .cancelled] :=
    hstopped.status ▸ outcome.stops
  rw [writeProjection_stopped hstopped]
  -- The four writes, the last of which is the server's.
  have hpersisted := persistRunState_frame sha256 dates db state options.now .running
    (options.store.revision + 1)
  have hpersistedEffects := persistRunState_openEffects sha256 dates db
    options.now options (options.store.revision + 1) hstopped.status outcome.stops
  have hpersistedIntervals := persistRunState_noOpenInterval sha256 dates db options.now
    .running (options.store.revision + 1) (recordedAttempts options.saved) hstopped.status
    outcome.stops
  generalize persistRunState sha256 dates db state options.now .running
    (options.store.revision + 1) = persisted at hpersisted hpersistedEffects hpersistedIntervals
  have hfollowed := transitionFollowUps_frame persisted state options.now
  have hfollowUps := transitionFollowUps_noQueued persisted state options.now hstops
  generalize transitionFollowUpsForRunState persisted state options.now = followed
    at hfollowed hfollowUps
  have hsynced : Synced (recordedAttempts options.saved) followed
      (options.saved.steps.foldl (syncStep dates state options.now) followed) :=
    syncSteps_synced options.saved.steps followed
  generalize options.saved.steps.foldl (syncStep dates state options.now) followed = synced
    at hsynced
  have hopenEffect := settledBy_noOpenEffect synced options event.type hstops
  obtain ⟨runQueue, leases, effects, hsettled⟩ := settledBy_eq synced options event.type hstops
  -- What each table has become.
  have hrequests : NoPendingRequest (settledBy options synced state event.type) state.runId ↔
      NoPendingRequest db state.runId := by
    rw [hsettled]
    unfold NoPendingRequest
    rw [hsynced.requests, hfollowed.1, hpersisted.1]
  have hsubmissions : NoValidatingSubmission (settledBy options synced state event.type)
      state.runId ↔ NoValidatingSubmission db state.runId := by
    rw [hsettled]
    unfold NoValidatingSubmission isRequestOf
    dsimp only
    rw [hsynced.submissions, hsynced.requests, hfollowed.2.1, hfollowed.1, hpersisted.2.1,
      hpersisted.1]
  have hattempts : NoOpenAttemptBut [] (settledBy options synced state event.type) state.runId ↔
      NoOpenAttemptBut (recordedAttempts options.saved) db state.runId := by
    have hbefore : NoOpenAttemptBut (recordedAttempts options.saved) followed state.runId ↔
        NoOpenAttemptBut (recordedAttempts options.saved) db state.runId := by
      unfold NoOpenAttemptBut
      rw [hfollowed.2.2.1, hpersisted.2.2.1]
    rw [hsettled, ← hbefore]
    exact hsynced.noOpenAttempt
  have hintervals : NoOpenIntervalBut [] (settledBy options synced state event.type) state.runId ↔
      (outcome.status = .timed_out → run.paused = false →
        NoOpenIntervalBut (recordedAttempts options.saved) db state.runId) := by
    have hbefore : NoOpenIntervalBut (recordedAttempts options.saved) followed state.runId ↔
        NoOpenIntervalBut (recordedAttempts options.saved) persisted state.runId := by
      unfold NoOpenIntervalBut
      rw [hfollowed.2.2.1, hfollowed.2.2.2.1]
    rw [hsettled, ← hstopped.paused, ← hpersistedIntervals, ← hbefore]
    exact hsynced.noOpenInterval
  have heffects : NoOpenEffect (settledBy options synced state event.type) state.runId ↔ _ :=
    hopenEffect
  rw [hsynced.effects, hfollowed.2.2.2.2, hpersistedEffects] at heffects
  have hqueued : NoQueuedFollowUp (settledBy options synced state event.type) state.runId := by
    rw [hsettled]
    unfold NoQueuedFollowUp
    rw [hsynced.followUps]
    exact hfollowUps
  have hpaused : (db.runs.get? state.runId).any RunRow.paused = run.paused := by
    rw [hrun]
    rfl
  unfold ClosedBefore
  dsimp only
  rw [hpaused]
  constructor
  · intro h
    exact ⟨hrequests.1 h.requests, hsubmissions.1 h.submissions, hattempts.1 h.attempts,
      hintervals.1 h.intervals, heffects.1 h.effects⟩
  · rintro ⟨h₁, h₂, h₃, h₄, h₅⟩
    exact ⟨hrequests.2 h₁, hsubmissions.2 h₂, hattempts.2 h₃, hintervals.2 h₄, heffects.2 h₅,
      hqueued⟩

end

/-! ## Every operation that ends a run -/

theorem acceptedDb_some {r : Db × Bool} {db : Db} : acceptedDb r = some db ↔ r = (db, true) := by
  obtain ⟨db', accepted⟩ := r
  cases accepted <;> simp [acceptedDb]

/-- An operation that ends a run leaves nothing of it open exactly if everything
it does not close itself was closed before. -/
theorem endRun_nothingOpen_iff {sha256 : String → String} {dates : HostDates} {db db' : Db}
    {runId : String} {operation : EndingOperation}
    (h : endRun sha256 dates db runId operation = .ok (some db')) :
    NothingOpen db' runId ↔ ClosedBefore sha256 db runId operation := by
  cases operation with
  | commit options event outcome error finalOutput =>
      obtain ⟨leases, run, state, hrun, hstopped, rfl⟩ := endRun_commit h
      obtain rfl := hstopped.runId
      have hrun : ({ db with leases := leases } : Db).runs.get? state.runId = some run := hrun
      exact commit_nothingOpen_iff hrun hstopped
  | fail claimToken errorCode errorMessage now =>
      have hfailed := acceptedDb_some.1 (Except.ok.inj h)
      exact failWorkflowRun_nothingOpen_iff hfailed
  | cancel claimToken now =>
      simp only [endRun, map_ok] at h
      obtain ⟨r, hcancelled, haccepted⟩ := h
      obtain rfl := acceptedDb_some.1 haccepted
      exact cancelWorkflowRun_nothingOpen_iff hcancelled
  | cancelStale controlId now =>
      simp only [endRun, map_ok] at h
      obtain ⟨r, hcancelled, haccepted⟩ := h
      obtain rfl := acceptedDb_some.1 haccepted
      exact cancelStaleWorkflowRun_nothingOpen_iff hcancelled

/-- A run that its runner has started. -/
def startedRun : List QueueAction :=
  [.call (.reserve
      { runId := "run", workflowName := "review", workflowSourceRef := "builtin:review"
        workflowSource := .null, definitionDigest := String.ofList (List.replicate 64 'a')
        input := .null, originSessionId := "session", executionMode := some .headless } 0),
    .call (.claim "run" "server-1" "token" 30 1 {}),
    .call (.markRunning "run" "token" 2),
    .elsewhere fun db => db.updateRun "run" fun run => { run with status := .running }]

/-- The engine's commit that the started run has failed. -/
def failingCommit : EndingOperation :=
  .commit
    { store := ⟨some (some ⟨.server, "server-1", "token", 1, none⟩), 3⟩
      definition := ⟨"start", [], [], by simp⟩
      saved := { runId := "run", status := .running }
      activeGeneration := some 1, now := 3 }
    ⟨"run_failed", none, none, []⟩ ⟨.failed, by decide⟩ (some "the node failed") none

theorem failingCommit_nothingOpen : ∃ db',
    endRun id ⟨fun _ => none, fun _ => ""⟩ (queueRun id .initial startedRun).db "run" failingCommit =
      .ok (some db') ∧ NothingOpen db' "run" := by
  obtain ⟨db', h⟩ : ∃ db', endRun id ⟨fun _ => none, fun _ => ""⟩
      (queueRun id .initial startedRun).db "run" failingCommit = .ok (some db') := ⟨_, rfl⟩
  refine ⟨db', h, (endRun_nothingOpen_iff h).2 ?_⟩
  exact ⟨Table.holds_empty, Table.holds_empty, Table.holds_empty, fun _ _ => Table.holds_empty,
    Table.holds_empty, fun hactive => by cases hactive⟩

/-- A parked run keeps the follow-up its cancellation forgets. -/
def parkedRun : List QueueAction :=
  startedRun ++
    [.elsewhere fun db =>
        { db.updateRun "run" fun run => { run with status := .waiting } with
          followUps := (db.followUps.insert? "follow-up"
            ⟨"run", "request", "go on", .queued, 3⟩).getD db.followUps },
      .call (.park "run" "token" 4)]

theorem parkedRun_followUp_queued : ∃ db',
    endRun id ⟨fun _ => none, fun _ => ""⟩ (queueRun id .initial parkedRun).db "run"
      (.cancel none 5) = .ok (some db') ∧ ¬ NothingOpen db' "run" := by
  refine ⟨_, rfl, fun h => ?_⟩
  exact h.followUps "follow-up" ⟨"run", "request", "go on", .queued, 3⟩ rfl rfl rfl

end PiWorkflows
