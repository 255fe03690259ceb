import PiWorkflows.Workflows.RunStore

/-!
# What the queue and a commit do to requests and effects

`QueueSteps` says what an operation of the queue does to the entry of a run. This
is the other half: the requests, the submissions and the effects, with their
attempts. Most operations leave the four tables as they are. A release settles
the effect that asked for it, a timeout gives up one request, a failure gives up
the requests of the run, and a cancellation closes what the run has open in all
of them.

A commit of the engine may make a request, count one as consumed, order an effect
for the queue and settle it.
-/

namespace PiWorkflows

open Fallible

/-- The four tables are those of the other database. -/
structure SameDependentRows (db db' : Db) : Prop where
  requests : db'.requests = db.requests
  submissions : db'.submissions = db.submissions
  effects : db'.effects = db.effects
  effectAttempts : db'.effectAttempts = db.effectAttempts

theorem SameDependentRows.refl (db : Db) : SameDependentRows db db :=
  ⟨rfl, rfl, rfl, rfl⟩

theorem SameDependentRows.trans {db db' db'' : Db} (h : SameDependentRows db db')
    (h' : SameDependentRows db' db'') : SameDependentRows db db'' :=
  ⟨h'.requests.trans h.requests, h'.submissions.trans h.submissions, h'.effects.trans h.effects,
    h'.effectAttempts.trans h.effectAttempts⟩

/-- The writes of a timeout to a request. -/
def expireRequest (db : Db) (requestId error : String) (now : Int) : Db :=
  rejectValidating { db with requests := db.requests.update requestId (cancelRequest now) }
    (fun id => id = requestId) error

/-- The writes of a cancellation to what a run has open. -/
def cancelOpenRows (db : Db) (runId effectError submissionError : String) (now : Int) : Db :=
  let effects := cancelRunEffects db runId now effectError
  cancelPendingRequests (rejectValidating effects (isRequestOf effects runId) submissionError) runId
    now

/-- What can happen to the four tables. -/
inductive DependentsChange (db db' : Db) : Prop
  | same (hrows : SameDependentRows db db')
  | settled (runId effectType : String) (now : Int)
      (hrows : SameDependentRows (settleRunEffect db runId now effectType) db')
  | expired (requestId error : String) (now : Int) (request : RequestRow)
      (hrequest : db.requests.get? requestId = some request) (hpending : request.status = .pending)
      (hrows : SameDependentRows (expireRequest db requestId error now) db')
  | failed (runId : String) (now : Int)
      (hrows : SameDependentRows (cancelPendingRequests db runId now) db')
  | cancelled (runId effectError submissionError : String) (now : Int)
      (hrows : SameDependentRows (cancelOpenRows db runId effectError submissionError now) db')

theorem DependentsChange.refl (db : Db) : DependentsChange db db :=
  .same (.refl db)

section

variable {sha256 : String → String} {db db' : Db} {runId token : String} {now : Int}
  {accepted : Bool}

theorem reserveInTransaction_rows {options : ReservationOptions} {digest : String}
    (h : reserveWorkflowRunInTransaction db options now digest = .ok db') :
    SameDependentRows db db' := by
  unfold reserveWorkflowRunInTransaction at h
  simp only [bind_ok, require_ok] at h
  obtain ⟨_, -, lineage, -, h⟩ := h
  split at h
  · cases h
  · simp only [bind_ok, orThrow_ok, pure_ok] at h
    obtain ⟨leases, -, runs, -, bindings, -, runQueue, -, rfl⟩ := h
    exact ⟨rfl, rfl, rfl, rfl⟩

theorem claimRun_rows {runnerId : String} {leaseMs : Int} {options : ClaimOptions}
    (h : claimRun sha256 db runId runnerId token leaseMs now options = some db') :
    SameDependentRows db db' := by
  unfold claimRun at h
  split at h
  · cases h
  · split at h
    · cases h
    · split at h
      · cases h
      · split at h
        · cases h
        · simp only [Option.some.injEq] at h
          subst h
          split <;> exact ⟨rfl, rfl, rfl, rfl⟩

theorem releaseRunClaim_dependents {status : QueueStatus} :
    DependentsChange db (releaseRunClaim sha256 db runId token now status).1 := by
  unfold releaseRunClaim
  split
  · exact .settled runId _ now ⟨rfl, rfl, rfl, rfl⟩
  · exact .refl db

theorem parkForError_dependents {errorCode detail conflict : String}
    (h : parkForError sha256 db runId token now errorCode detail conflict = .ok (db', accepted)) :
    DependentsChange db db' := by
  unfold parkForError at h
  split at h
  · cases h
    exact .refl db
  · split at h
    · simp only [bind_ok, pure_ok, Prod.mk.injEq] at h
      obtain ⟨_, -, rfl, -⟩ := h
      exact .same ⟨rfl, rfl, rfl, rfl⟩
    · cases h
      exact .refl db

theorem parkForAmbiguousEffect_dependents
    (h : parkWorkflowRunForAmbiguousEffect sha256 db runId token now = .ok (db', accepted)) :
    DependentsChange db db' := by
  unfold parkWorkflowRunForAmbiguousEffect at h
  split at h
  · cases h
    exact .refl db
  · split at h
    · simp only [bind_ok, pure_ok, Prod.mk.injEq] at h
      obtain ⟨_, -, rfl, -⟩ := h
      exact .same ⟨rfl, rfl, rfl, rfl⟩
    · cases h
      exact .refl db

theorem expiredInteraction_some {targetSessionId requestId : String} {request : RequestRow}
    (h : expiredInteraction db runId targetSessionId = some (requestId, request)) :
    db.requests.get? requestId = some request ∧ request.status = .pending := by
  obtain ⟨hrequest, hexpired⟩ := Table.find?_some h
  simp only [decide_eq_true_eq] at hexpired
  exact ⟨hrequest, hexpired.2.2.1⟩

theorem beginInteractionTimeout_dependents {targetSessionId : String}
    (h : beginWorkflowRunInteractionTimeout db runId now sha256 targetSessionId token =
      .ok (db', accepted)) : DependentsChange db db' := by
  unfold beginWorkflowRunInteractionTimeout at h
  split at h
  · cases h
    exact .refl db
  · split at h
    · split at h
      · cases h
        exact .refl db
      · next requestId request hexpired =>
          simp only [bind_ok, pure_ok, Prod.mk.injEq] at h
          obtain ⟨_, -, rfl, -⟩ := h
          split at hexpired
          · cases hexpired
          · obtain ⟨hrequest, hpending⟩ := expiredInteraction_some hexpired
            exact .expired requestId _ now request hrequest hpending ⟨rfl, rfl, rfl, rfl⟩
    · cases h
      exact .refl db

theorem terminalRun_dependents {claimToken : Option String} {outcome : TerminalOutcome}
    {code error : String} :
    DependentsChange db (terminalRun sha256 db runId claimToken outcome code error now).1 := by
  unfold terminalRun
  split
  · exact .refl db
  · split
    · -- Whether the lease is released does not matter here.
      cases outcome with
      | failed =>
          refine .failed runId now ?_
          cases claimToken <;> exact ⟨rfl, rfl, rfl, rfl⟩
      | cancelled =>
          refine .cancelled runId error "Workflow run cancelled" now ?_
          cases claimToken <;> exact ⟨rfl, rfl, rfl, rfl⟩
    · exact .refl db

theorem cancelStaleWorkflowRun_dependents {controlId : String}
    (h : cancelStaleWorkflowRun db runId controlId now = .ok (db', accepted)) :
    DependentsChange db db' := by
  unfold cancelStaleWorkflowRun at h
  split at h
  · cases h
    exact .refl db
  · split at h
    · cases h
      exact .refl db
    · simp only [bind_ok, pure_ok, Prod.mk.injEq] at h
      obtain ⟨_, -, rfl, -⟩ := h
      exact .cancelled runId "Workflow run cancelled" "Workflow run cancelled" now
        ⟨rfl, rfl, rfl, rfl⟩

theorem cancelWorkflowRun_dependents {claimToken : Option String}
    (h : cancelWorkflowRun sha256 db runId claimToken now = .ok (db', accepted)) :
    DependentsChange db db' := by
  have hterminal : DependentsChange db (terminalRun sha256 db runId claimToken .cancelled
      "cancelled" "Workflow run cancelled" now).1 := terminalRun_dependents
  unfold cancelWorkflowRun at h
  dsimp only at h
  split at h
  · cases h
    exact hterminal
  · exact cancelStaleWorkflowRun_dependents h

end

/-- Every operation makes one of the changes. -/
theorem execute_dependents {sha256 : String → String} {db db' : Db} {operation : QueueOperation}
    {answer : QueueAnswer} (h : execute sha256 db operation = .ok (db', answer)) :
    DependentsChange db db' := by
  cases operation with
  | reserve options now =>
      simp only [execute, map_ok, plainAnswer, Prod.mk.injEq, reserveWorkflowRun, bind_ok] at h
      obtain ⟨_, ⟨_, -, _, -, hreserved⟩, rfl, -⟩ := h
      exact .same (reserveInTransaction_rows hreserved)
  | reserveOrAdopt options now =>
      simp only [execute, map_ok, plainAnswer, Prod.mk.injEq, reserveOrAdoptWorkflowRun,
        bind_ok] at h
      obtain ⟨_, ⟨_, -, _, -, hreserved⟩, rfl, -⟩ := h
      split at hreserved
      · simp only [bind_ok, pure_ok] at hreserved
        obtain ⟨_, -, rfl⟩ := hreserved
        exact .refl db
      · exact .same (reserveInTransaction_rows hreserved)
  | claim runId runnerId claimToken leaseMs now options =>
      simp only [execute, Except.ok.injEq] at h
      cases hclaim : claimRun sha256 db runId runnerId claimToken leaseMs now options with
      | none =>
          rw [hclaim] at h
          cases h
          exact .refl db
      | some claimed =>
          rw [hclaim] at h
          cases h
          exact .same (claimRun_rows hclaim)
  | claimNext runnerId claimToken leaseMs now exclude =>
      simp only [execute] at h
      split at h
      · next hclaim =>
          cases h
          simp only [claimNextWorkflowRun, Option.bind_eq_bind, Option.pure_def,
            Option.bind_eq_some_iff, Option.some.injEq, Prod.mk.injEq] at hclaim
          obtain ⟨_, -, _, hclaim, -, rfl⟩ := hclaim
          exact .same (claimRun_rows hclaim)
      · cases h
        exact .refl db
  | renew =>
      cases h
      refine .same ?_
      unfold renewWorkflowRunClaim
      split <;> exact ⟨rfl, rfl, rfl, rfl⟩
  | markRunning =>
      cases h
      refine .same ?_
      unfold markWorkflowRunRunning updateClaimedRunStatus
      split <;> exact ⟨rfl, rfl, rfl, rfl⟩
  | park => cases h; exact releaseRunClaim_dependents
  | complete => cases h; exact releaseRunClaim_dependents
  | parkForRunnerNoProgress =>
      simp only [execute, map_ok, plainAnswer, Prod.mk.injEq] at h
      obtain ⟨_, hparked, rfl, -⟩ := h
      exact parkForError_dependents hparked
  | parkForSourceChange =>
      simp only [execute, map_ok, plainAnswer, Prod.mk.injEq] at h
      obtain ⟨_, hparked, rfl, -⟩ := h
      exact parkForError_dependents hparked
  | parkForAmbiguousEffect =>
      simp only [execute, map_ok, plainAnswer, Prod.mk.injEq] at h
      obtain ⟨_, hparked, rfl, -⟩ := h
      exact parkForAmbiguousEffect_dependents hparked
  | beginInteractionTimeout =>
      simp only [execute, map_ok, plainAnswer, Prod.mk.injEq] at h
      obtain ⟨_, htimeout, rfl, -⟩ := h
      exact beginInteractionTimeout_dependents htimeout
  | pauseParked =>
      cases h
      refine .same ?_
      unfold pauseParkedWorkflowRun
      repeat' split
      all_goals exact ⟨rfl, rfl, rfl, rfl⟩
  | resumePausedInteraction =>
      cases h
      refine .same ?_
      unfold resumePausedInteraction
      repeat' split
      all_goals exact ⟨rfl, rfl, rfl, rfl⟩
  | requestResume =>
      cases h
      refine .same ?_
      unfold requestWorkflowRunResume
      repeat' split
      all_goals exact ⟨rfl, rfl, rfl, rfl⟩
  | fail => cases h; exact terminalRun_dependents
  | cancel =>
      simp only [execute, map_ok, plainAnswer, Prod.mk.injEq] at h
      obtain ⟨_, hcancelled, rfl, -⟩ := h
      exact cancelWorkflowRun_dependents hcancelled
  | cancelStale =>
      simp only [execute, map_ok, plainAnswer, Prod.mk.injEq] at h
      obtain ⟨_, hcancelled, rfl, -⟩ := h
      exact cancelStaleWorkflowRun_dependents hcancelled
  | expireServerLeases => cases h; exact .same ⟨rfl, rfl, rfl, rfl⟩

/-! ## A commit -/

section

variable {sha256 : String → String} {dates : HostDates} {db db' : Db} {runId : String} {now : Int}

/-- A new request, if there is one, waits. -/
inductive RequestMade (db db' : Db) : Prop
  | none (hsame : db'.requests = db.requests)
  | made (requestId : String) (request : RequestRow) (hpending : request.status = .pending)
      (hinsert : db.requests.insert? requestId request = some db'.requests)

theorem ensureWorkflowRequest_made {options : RequestOptions} {request : RequestRow}
    (h : ensureWorkflowRequest db now options = .ok (db', request)) :
    RequestMade db db' ∧ db'.submissions = db.submissions ∧ db'.effects = db.effects ∧
      db'.effectAttempts = db.effectAttempts := by
  unfold ensureWorkflowRequest at h
  split at h
  · simp only [bind_ok, pure_ok, Prod.mk.injEq] at h
    obtain ⟨_, -, rfl, -⟩ := h
    exact ⟨.none rfl, rfl, rfl, rfl⟩
  · simp only [bind_ok, orThrow_ok, pure_ok, Prod.mk.injEq] at h
    obtain ⟨_, -, _, -, _, -, requests, hinsert, rfl, rfl⟩ := h
    exact ⟨.made _ _ rfl hinsert, rfl, rfl, rfl⟩

theorem createDecision_rows {checkDecision : Json → Except String String}
    {decisionId attemptId : String} {decision : Json}
    (h : createDecision db runId checkDecision decisionId decision attemptId = .ok db') :
    SameDependentRows db db' := by
  unfold createDecision at h
  simp only [bind_ok] at h
  obtain ⟨digest, -, h⟩ := h
  split at h
  · simp only [bind_ok, pure_ok] at h
    obtain ⟨_, -, rfl⟩ := h
    exact .refl db
  · simp only [bind_ok, pure_ok] at h
    obtain ⟨_, -, _, -, decisions, -, rfl⟩ := h
    exact ⟨rfl, rfl, rfl, rfl⟩

/-- What a transition asks of other tables is at most a new request. -/
structure Prepared (db db' : Db) : Prop where
  requests : RequestMade db db'
  submissions : db'.submissions = db.submissions
  effects : db'.effects = db.effects
  effectAttempts : db'.effectAttempts = db.effectAttempts

theorem Prepared.same (h : SameDependentRows db db') : Prepared db db' :=
  ⟨.none h.requests, h.submissions, h.effects, h.effectAttempts⟩

/-- A request made after rows that count here have stayed the same. -/
theorem Prepared.request {decided : Db} {options : RequestOptions} {request : RequestRow}
    (hdecided : SameDependentRows db decided)
    (h : ensureWorkflowRequest decided now options = .ok (db', request)) : Prepared db db' := by
  obtain ⟨hmade, hsubmissions, heffects, hattempts⟩ := ensureWorkflowRequest_made h
  refine ⟨?_, hsubmissions.trans hdecided.submissions, heffects.trans hdecided.effects,
    hattempts.trans hdecided.effectAttempts⟩
  cases hmade with
  | none hsame => exact .none (hsame.trans hdecided.requests)
  | made requestId request hpending hinsert =>
      rw [hdecided.requests] at hinsert
      exact .made requestId request hpending hinsert

theorem requestInput_prepared {checkDecision : Json → Except String String}
    {definition : DefinitionSnapshot} {event : TraceEventDraft} {requestId : String}
    {requestKind : CheckpointKind} {contract : Json}
    (h : requestInput db runId now checkDecision definition event requestId requestKind contract =
      .ok db') : Prepared db db' := by
  unfold requestInput at h
  simp only [bind_ok] at h
  obtain ⟨_, -, h⟩ := h
  split at h
  · simp only [bind_ok, pure_ok] at h
    obtain ⟨_, -, decided, hdecided, ⟨requested, request⟩, hrequested, rfl⟩ := h
    exact .request (createDecision_rows hdecided) hrequested
  · simp only [bind_ok, pure_ok] at h
    obtain ⟨decided, rfl, ⟨requested, request⟩, hrequested, rfl⟩ := h
    exact .request (.refl db) hrequested

theorem prepareTransition_prepared {options : CommitOptions} {current : RunState}
    {transition : WorkflowTransition}
    (h : prepareTransition db runId options current transition = .ok db') : Prepared db db' := by
  unfold prepareTransition at h
  split at h
  · simp only [bind_ok, pure_ok] at h
    obtain ⟨_, -, rfl⟩ := h
    exact .same (.refl db)
  · exact requestInput_prepared h
  · split at h
    · simp only [retireAttempt, bind_ok, pure_ok] at h
      obtain ⟨_, -, _, -, rfl⟩ := h
      exact .same ⟨rfl, rfl, rfl, rfl⟩
    · cases h
      exact .same (.refl db)
  · cases h
    exact .same (.refl db)

theorem syncSteps_rows {state : RunState} (steps : List StepRecord) (db : Db) :
    SameDependentRows db (steps.foldl (syncStep dates state now) db) := by
  induction steps generalizing db with
  | nil => exact .refl db
  | cons step rest ih =>
      have hstep : SameDependentRows db (syncStep dates state now db step) := ⟨rfl, rfl, rfl, rfl⟩
      exact hstep.trans (ih (syncStep dates state now db step))

theorem ensureAttempt_rows {state : RunState} {nodeId attemptId : String} :
    SameDependentRows db (ensureAttempt dates db state now nodeId attemptId) := by
  unfold ensureAttempt
  dsimp only
  split <;> exact ⟨rfl, rfl, rfl, rfl⟩

theorem syncNodeAttempts_rows {state : RunState} :
    SameDependentRows db (syncNodeAttempts dates db state now) := by
  have hsteps : SameDependentRows db (state.steps.foldl (syncStep dates state now) db) :=
    syncSteps_rows state.steps db
  unfold syncNodeAttempts
  dsimp only
  split
  · split
    · exact hsteps.trans ensureAttempt_rows
    · exact (hsteps.trans ensureAttempt_rows).trans ⟨rfl, rfl, rfl, rfl⟩
  · exact hsteps

theorem transitionFollowUps_rows {state : RunState} :
    SameDependentRows db (transitionFollowUpsForRunState db state now) := by
  unfold transitionFollowUpsForRunState
  split <;> exact ⟨rfl, rfl, rfl, rfl⟩

/-- The effect a commit orders depends on the effects and on the queue alone. -/
theorem enqueueRunSettlementEffect_effects {state : RunState} {revision : Nat}
    (heffects : db'.effects = db.effects) (hqueue : db'.runQueue = db.runQueue) :
    (enqueueRunSettlementEffect sha256 db' state now revision).effects =
      (enqueueRunSettlementEffect sha256 db state now revision).effects := by
  unfold enqueueRunSettlementEffect
  rw [hqueue]
  split
  · exact heffects
  · dsimp only
    rw [heffects]

/-- The other three tables stay the same. -/
theorem enqueueRunSettlementEffect_frame {state : RunState} {revision : Nat} :
    (enqueueRunSettlementEffect sha256 db state now revision).requests = db.requests ∧
      (enqueueRunSettlementEffect sha256 db state now revision).submissions = db.submissions ∧
      (enqueueRunSettlementEffect sha256 db state now revision).effectAttempts =
        db.effectAttempts := by
  unfold enqueueRunSettlementEffect
  split <;> exact ⟨rfl, rfl, rfl⟩

theorem persistRunState_rows {state : RunState} {previous : StoredRunStatus} {revision : Nat} :
    SameDependentRows db (persistRunState sha256 dates db state now previous revision) ∨
      SameDependentRows (enqueueRunSettlementEffect sha256 db state now revision)
        (persistRunState sha256 dates db state now previous revision) := by
  unfold persistRunState
  dsimp only
  split
  · right
    refine ⟨?_, ?_, ?_, ?_⟩
    · rw [enqueueRunSettlementEffect_frame.1, enqueueRunSettlementEffect_frame.1]
      split <;> rfl
    · rw [enqueueRunSettlementEffect_frame.2.1, enqueueRunSettlementEffect_frame.2.1]
      split <;> rfl
    · refine enqueueRunSettlementEffect_effects ?_ ?_
      · split <;> rfl
      · split <;> rfl
    · rw [enqueueRunSettlementEffect_frame.2.2, enqueueRunSettlementEffect_frame.2.2]
      split <;> rfl
  · left
    split <;> exact ⟨rfl, rfl, rfl, rfl⟩

theorem applyLifecycleProjection_rows {state : RunState} {eventType : String} {generation : Nat} :
    SameDependentRows db (applyLifecycleProjection db runId now state eventType generation) ∨
      ∃ effectType, SameDependentRows (settleRunEffect db runId now effectType)
        (applyLifecycleProjection db runId now state eventType generation) := by
  unfold applyLifecycleProjection
  split
  · left
    split <;> exact ⟨rfl, rfl, rfl, rfl⟩
  · exact .inr ⟨_, ⟨rfl, rfl, rfl, rfl⟩⟩

/-- What a commit does to the four tables, write by write. -/
structure CommitChange (sha256 : String → String) (db db' : Db) : Prop where
  writes : ∃ prepared persisted consumed, Prepared db prepared ∧
    (SameDependentRows prepared persisted ∨ ∃ state now revision,
      SameDependentRows (enqueueRunSettlementEffect sha256 prepared state now revision) persisted) ∧
    (SameDependentRows persisted consumed ∨ ∃ now runId attemptId,
      SameDependentRows (consumeRequest persisted now runId attemptId) consumed) ∧
    (SameDependentRows consumed db' ∨ ∃ runId now effectType,
      SameDependentRows (settleRunEffect consumed runId now effectType) db')

theorem commitTransition_change {options : CommitOptions} {transition : WorkflowTransition}
    (h : commitTransition sha256 dates db runId options transition = .ok db') :
    CommitChange sha256 db db' := by
  unfold commitTransition at h
  simp only [bind_ok, orThrow_ok, pure_ok] at h
  obtain ⟨authorized, hauthorized, run, -, current, -, state, -, prepared, hprepared, _, -, rfl⟩ := h
  obtain ⟨leases, rfl⟩ := assertWriteAuthority_leases hauthorized
  have hprepared : Prepared db prepared := by
    obtain ⟨hmade, hsubmissions, heffects, hattempts⟩ := prepareTransition_prepared hprepared
    refine ⟨?_, hsubmissions, heffects, hattempts⟩
    cases hmade with
    | none hsame => exact .none hsame
    | made requestId request hpending hinsert => exact .made requestId request hpending hinsert
  have hpersisted : SameDependentRows prepared
      (persistRunState sha256 dates prepared state options.now run.status
        (options.store.revision + 1)) ∨ _ := persistRunState_rows
  have hsynced : SameDependentRows
      (persistRunState sha256 dates prepared state options.now run.status
        (options.store.revision + 1))
      (syncNodeAttempts dates
        (transitionFollowUpsForRunState
          (persistRunState sha256 dates prepared state options.now run.status
            (options.store.revision + 1)) state options.now) state options.now) :=
    transitionFollowUps_rows.trans syncNodeAttempts_rows
  unfold writeProjection
  dsimp only
  generalize persistRunState sha256 dates prepared state options.now run.status
    (options.store.revision + 1) = persisted at hpersisted hsynced
  generalize syncNodeAttempts dates (transitionFollowUpsForRunState persisted state options.now)
    state options.now = synced at hsynced
  have hwrites : ∀ consumed final, (SameDependentRows synced consumed ∨ ∃ now runId attemptId,
      SameDependentRows (consumeRequest synced now runId attemptId) consumed) →
      (SameDependentRows consumed final ∨ ∃ runId now effectType,
        SameDependentRows (settleRunEffect consumed runId now effectType) final) →
      CommitChange sha256 db final := by
    intro consumed final hconsumed hfinal
    refine ⟨prepared, synced, consumed, hprepared, ?_, hconsumed, hfinal⟩
    rcases hpersisted with hsame | hordered
    · exact .inl (hsame.trans hsynced)
    · exact .inr ⟨state, options.now, options.store.revision + 1, hordered.trans hsynced⟩
  have hlifecycle : ∀ consumed generation, SameDependentRows consumed (applyLifecycleProjection
        consumed runId options.now state transition.event.type generation) ∨
      ∃ runId' now effectType, SameDependentRows (settleRunEffect consumed runId' now effectType)
        (applyLifecycleProjection consumed runId options.now state transition.event.type
          generation) := by
    intro consumed generation
    rcases applyLifecycleProjection_rows with hsame | ⟨effectType, hsettled⟩
    · exact .inl hsame
    · exact .inr ⟨runId, options.now, effectType, hsettled⟩
  split
  · next generation _ =>
      refine hwrites _ _ ?_ (hlifecycle _ generation)
      split
      · exact .inr ⟨options.now, runId, _, .refl _⟩
      · exact .inl (.refl _)
  · refine hwrites _ _ ?_ (.inl (.refl _))
    split
    · exact .inr ⟨options.now, runId, _, .refl _⟩
    · exact .inl (.refl _)

end

end PiWorkflows
