import PiWorkflows.Proofs.DecisionOutcome
import PiWorkflows.Server.DecisionTimeout

/-!
# The deadlines of decisions that a pass keeps

A pass over the expired decisions ends with the first that it cannot read, and
otherwise tries one of them. So one that cannot be resolved stands in the way of
all that come after it, at this pass and at every later one. `pass_keepsDeadlines_iff`
says when a pass does what it is for.

Every statement of a pass is about the decision and the run of its candidate and
leaves everything else alone (`Spared`); a claim changes the lease of the run for
good, since its generation is never taken back.
-/

namespace PiWorkflows

open Fallible

/-- Nothing but the decision, its answers and its request, and the claim of its run is changed;
nothing at all where no decision is named. -/
structure Spared (resolved : Option HumanDecisionRequest) (s s' : HumanDecisionStore) : Prop where
  decisions : s'.db.decisions = s.db.decisions
  deadlines : s'.deadlines = s.deadlines
  resolutions : ∀ id, (∀ request, resolved = some request → id ≠ request.decisionId) →
    s'.db.resolutions.get? id = s.db.resolutions.get? id
  answers : ∀ key, (∀ request, resolved = some request → key.1 ≠ request.decisionId) →
    s'.answers.get? key = s.answers.get? key
  requests : ∀ id, (∀ request, resolved = some request → id ≠ request.decisionId) →
    s'.db.requests.get? id = s.db.requests.get? id
  leases : ∀ runId, (∀ request, resolved = some request → runId ≠ request.runId) →
    s'.db.leases.get? runId = s.db.leases.get? runId

namespace Spared

variable {resolved : Option HumanDecisionRequest} {s s' s'' : HumanDecisionStore}

theorem refl (resolved : Option HumanDecisionRequest) (s : HumanDecisionStore) :
    Spared resolved s s :=
  ⟨rfl, rfl, fun _ _ => rfl, fun _ _ => rfl, fun _ _ => rfl, fun _ _ => rfl⟩

theorem trans (h : Spared resolved s s') (h' : Spared resolved s' s'') : Spared resolved s s'' where
  decisions := h'.decisions.trans h.decisions
  deadlines := h'.deadlines.trans h.deadlines
  resolutions := fun id hid => (h'.resolutions id hid).trans (h.resolutions id hid)
  answers := fun key hkey => (h'.answers key hkey).trans (h.answers key hkey)
  requests := fun id hid => (h'.requests id hid).trans (h.requests id hid)
  leases := fun runId hrun => (h'.leases runId hrun).trans (h.leases runId hrun)

end Spared

/-! ## Statements -/

section

variable {sha256 : String → String} {db db' : Db} {runId : String}

/-- A claim is the next generation of a lease that is there. -/
theorem claimRun_some {runnerId token : String} {leaseMs now : Int} {options : ClaimOptions}
    (h : claimRun sha256 db runId runnerId token leaseMs now options = some db') :
    (db.leases.get? runId).isSome = true ∧
      (∃ owner, db'.leases = db.leases.update runId fun lease => lease.claim owner) ∧
      db'.decisions = db.decisions ∧ db'.resolutions = db.resolutions ∧
      db'.requests = db.requests := by
  unfold claimRun at h
  split at h
  · cases h
  · next row hrow =>
      simp only [workflowRunRow, Option.bind_eq_bind, Option.bind_eq_some_iff, Option.pure_def,
        Option.some.injEq] at hrow
      obtain ⟨_, -, _, -, lease, hlease, rfl⟩ := hrow
      split at h
      · cases h
      split at h
      · cases h
      split at h
      · cases h
      have hsome : (db.leases.get? runId).isSome = true := by rw [hlease]; rfl
      cases h
      cases options.preserveQueueStatus
      · exact ⟨hsome, ⟨_, rfl⟩, rfl, rfl, rfl⟩
      · exact ⟨hsome, ⟨_, rfl⟩, rfl, rfl, rfl⟩

/-- Parking keeps the generations of all leases. -/
theorem parkWorkflowRun_leases (sha256 : String → String) (db : Db) (runId token : String)
    (now : Int) :
    (∀ id, id ≠ runId → (parkWorkflowRun sha256 db runId token now).1.leases.get? id =
      db.leases.get? id) ∧
    ((parkWorkflowRun sha256 db runId token now).1.leases.get? runId).map Lease.generation =
      (db.leases.get? runId).map Lease.generation ∧
    (parkWorkflowRun sha256 db runId token now).1.decisions = db.decisions ∧
    (parkWorkflowRun sha256 db runId token now).1.resolutions = db.resolutions ∧
    (parkWorkflowRun sha256 db runId token now).1.requests = db.requests := by
  unfold parkWorkflowRun releaseRunClaim
  split
  · refine ⟨fun id hid => Table.get?_update_ne hid _ _, ?_, rfl, rfl, rfl⟩
    show ((db.leases.update runId Lease.release).get? runId).map Lease.generation = _
    rw [Table.get?_update_self, Option.map_map]
    rfl
  · exact ⟨fun _ _ => rfl, rfl, rfl, rfl, rfl⟩

/-- A submission is about its own request. -/
theorem submitInteraction_ok {options : InteractionOptions} {accepted : Bool} {now : Int}
    {answer : SubmissionAnswer}
    (h : submitInteraction sha256 db now options accepted = .ok (db', answer)) :
    (∀ id, id ≠ options.requestId → db'.requests.get? id = db.requests.get? id) ∧
      db'.leases = db.leases ∧ db'.decisions = db.decisions ∧ db'.resolutions = db.resolutions := by
  unfold submitInteraction recordWorkflowSubmission at h
  simp only [bind_ok, orThrow_ok] at h
  obtain ⟨request, -, h⟩ := h
  split at h
  · simp only [bind_ok, require_ok, pure_ok, Prod.mk.injEq] at h
    obtain ⟨_, -, rfl, -⟩ := h
    exact ⟨fun _ _ => rfl, rfl, rfl, rfl⟩
  · simp only [bind_ok, orThrow_ok, pure_ok, Prod.mk.injEq] at h
    obtain ⟨_, -, _, -, rfl, -⟩ := h
    refine ⟨fun id hid => ?_, rfl, rfl, rfl⟩
    dsimp only
    split
    · exact Table.get?_update_ne hid _ _
    · rfl

end

namespace HumanDecisionStore

variable {sha256 : String → String} {dates : HostDates} {normalize : Json → Except String Json}
  {s s' : HumanDecisionStore}

/-- An acceptance writes neither leases nor requests and their submissions. -/
theorem attemptAcceptance_frame {request : HumanDecisionRequest}
    {authority : Option RunWriteAuthority} {decision : ResolvedHumanDecision}
    {attempt : AcceptanceAttempt} {time : Int} {answer : AcceptanceStatus × Json}
    (h : s.attemptAcceptance sha256 dates normalize request authority decision attempt time =
      .ok (s', answer)) :
    s'.db.leases = s.db.leases ∧ s'.db.requests = s.db.requests ∧
      s'.db.submissions = s.db.submissions := by
  unfold attemptAcceptance at h
  simp only [bind_ok] at h
  obtain ⟨_, -, winner, -, h⟩ := h
  cases winner with
  | some winner =>
      cases winner with
      | cancelled reason => cases h
      | accepted won =>
          simp only [answerResolved] at h
          split at h
          · cases h
            exact ⟨rfl, rfl, rfl⟩
          · cases h
            exact ⟨rfl, rfl, rfl⟩
  | none =>
      unfold resolveAccepted at h
      simp only [bind_ok, orThrow_ok, pure_ok, Prod.mk.injEq] at h
      obtain ⟨_, -, _, heffects, rfl, -⟩ := h
      obtain ⟨_, rfl⟩ := enqueueResolutionEffects_frame heffects
      exact ⟨rfl, rfl, rfl⟩

theorem answers_frame {decisionId attemptId : String} {attempt : AcceptanceAttempt} {time : Int}
    {outcome : AnswerOutcome} {result : Option Json} {key : String × String}
    (h : key.1 ≠ decisionId) :
    ((s.insertAnswer decisionId attempt time).markSubmission decisionId attemptId outcome
      result).answers.get? key = s.answers.get? key := by
  have hne : ∀ id, key ≠ (decisionId, id) := fun id heq => h (congrArg Prod.fst heq)
  show (((s.answers.insert? (decisionId, attempt.attemptId) _).getD s.answers).update
    (decisionId, attemptId) _).get? key = _
  rw [Table.get?_update_ne (hne attemptId), Table.get?_insert?_getD, if_neg (hne attempt.attemptId)]

/-- A timeout policy resolves the decision it is called for, if that is open. -/
theorem resolveTimeout_ok {request : HumanDecisionRequest} {authority : Option RunWriteAuthority}
    {now : Int} {answer : AcceptanceStatus × Json}
    (h : s.resolveTimeout sha256 dates normalize request authority now = .ok (s', answer)) :
    Spared (some request) s s' ∧ s'.db.leases = s.db.leases ∧
      (s.db.resolutions.get? request.decisionId = none →
        ∃ row response, s'.db.resolutions.get? request.decisionId = some row ∧
          row.outcome = .ok response ∧ textMember response "provenance" = some "timeout") := by
  unfold resolveTimeout at h
  simp only [bind_ok] at h
  obtain ⟨⟨decision, attempt⟩, hpolicy, h⟩ := h
  obtain ⟨hleases, hrequests, -⟩ := attemptAcceptance_frame h
  obtain ⟨-, hdecisions, hdeadlines, hchange⟩ := attemptAcceptance_ok h
  have hsource := (offers_source (.policy hpolicy)).2
  simp only [policyAnswer, bind_ok, pure_ok, Prod.mk.injEq] at hpolicy
  obtain ⟨_, -, _, -, _, -, _, -, _, -, _, -, rfl, rfl⟩ := hpolicy
  rcases hchange with ⟨hdb, ⟨row, won, hrow, -⟩, hanswers⟩ | ⟨hopen, hget, hanswers⟩
  · refine ⟨⟨hdecisions, hdeadlines, fun id _ => by rw [hdb], fun key hkey => ?_,
      fun id _ => by rw [hrequests], fun id _ => by rw [hleases]⟩, hleases, fun hopen => ?_⟩
    · rw [hanswers]
      exact answers_frame (hkey request rfl)
    · rw [hopen] at hrow
      cases hrow
  · refine ⟨⟨hdecisions, hdeadlines, fun id hid => ?_, fun key hkey => ?_,
      fun id _ => by rw [hrequests], fun id _ => by rw [hleases]⟩, hleases, fun _ => ?_⟩
    · rw [hget, if_neg (hid request rfl)]
    · rw [hanswers]
      exact answers_frame (hkey request rfl)
    · refine ⟨_, _, (hget _).trans (if_pos rfl), rfl, ?_⟩
      rw [textMember_storedJson]
      exact hsource

end HumanDecisionStore

namespace TimeoutHost

variable {host : TimeoutHost} {s s' : HumanDecisionStore} {candidate : TimeoutCandidate}

theorem claimWorkflowRunForControl_ok {runId : String} {claimed : HumanDecisionStore}
    (h : host.claimWorkflowRunForControl s runId = .ok (some claimed)) :
    ∃ db, claimed = { s with db := db } ∧ (s.db.leases.get? runId).isSome = true ∧
      (∃ owner, db.leases = s.db.leases.update runId fun lease => lease.claim owner) ∧
      db.decisions = s.db.decisions ∧ db.resolutions = s.db.resolutions ∧
      db.requests = s.db.requests := by
  unfold claimWorkflowRunForControl at h
  simp only [bind_ok, pure_ok] at h
  obtain ⟨_, -, h⟩ := h
  obtain ⟨db, hclaim, rfl⟩ := Option.map_eq_some_iff.1 h
  exact ⟨db, rfl, claimRun_some hclaim⟩

/-- A claim is about the run of the candidate. -/
theorem claim_spared {claimed : HumanDecisionStore}
    (h : host.claimWorkflowRunForControl s candidate.request.runId = .ok (some claimed)) :
    Spared (some candidate.request) s claimed := by
  obtain ⟨db, rfl, -, ⟨owner, hleases⟩, hdecisions, hresolutions, hrequests⟩ :=
    claimWorkflowRunForControl_ok h
  refine ⟨hdecisions, rfl, fun id _ => ?_, fun _ _ => rfl, fun id _ => ?_, fun id hid => ?_⟩
  · show db.resolutions.get? id = _
    rw [hresolutions]
  · show db.requests.get? id = _
    rw [hrequests]
  · show db.leases.get? id = _
    rw [hleases, Table.get?_update_ne (hid candidate.request rfl)]

/-- The transaction is about its decision and its run, and does not claim the run anew. -/
theorem resolveCandidate_ok (h : host.resolveCandidate s candidate = .ok s') :
    Spared (some candidate.request) s s' ∧
      (s'.db.leases.get? candidate.request.runId).map Lease.generation =
        (s.db.leases.get? candidate.request.runId).map Lease.generation ∧
      (s.db.resolutions.get? candidate.request.decisionId = none →
        ∃ row response, s'.db.resolutions.get? candidate.request.decisionId = some row ∧
          row.outcome = .ok response ∧ textMember response "provenance" = some "timeout") := by
  unfold resolveCandidate at h
  simp only [bind_ok, require_ok, orThrow_ok, pure_ok] at h
  obtain ⟨_, -, ⟨accepted, status, decision⟩, haccepted, payload, -, ⟨submitted, answer⟩, hsubmitted,
    _, -, rfl⟩ := h
  obtain ⟨hspared, hleases, hresolved⟩ := HumanDecisionStore.resolveTimeout_ok haccepted
  obtain ⟨hrequests, hsubmittedLeases, hdecisions, hresolutions⟩ := submitInteraction_ok hsubmitted
  obtain ⟨hparkedLeases, hgeneration, hparkedDecisions, hparkedResolutions, hparkedRequests⟩ :=
    parkWorkflowRun_leases host.sha256 submitted candidate.request.runId host.clock.claimToken
      host.clock.parkedAt
  dsimp only at hrequests hsubmittedLeases hdecisions hresolutions ⊢
  refine ⟨hspared.trans ⟨?_, rfl, fun id _ => ?_, fun _ _ => rfl, fun id hid => ?_,
    fun id hid => ?_⟩, ?_, fun hopen => ?_⟩
  · exact hparkedDecisions.trans hdecisions
  · show (parkWorkflowRun _ _ _ _ _).1.resolutions.get? id = _
    rw [hparkedResolutions, hresolutions]
  · show (parkWorkflowRun _ _ _ _ _).1.requests.get? id = _
    rw [hparkedRequests]
    exact hrequests id (hid candidate.request rfl)
  · show (parkWorkflowRun _ _ _ _ _).1.leases.get? id = _
    rw [hparkedLeases id (hid candidate.request rfl), hsubmittedLeases]
  · rw [hgeneration, hsubmittedLeases, hleases]
  · show ∃ row response, (parkWorkflowRun _ _ _ _ _).1.resolutions.get? _ = some row ∧ _
    rw [hparkedResolutions, hresolutions]
    exact hresolved hopen

theorem releaseClaim_ok {runId : String} (h : host.releaseClaim s runId = .ok s') :
    (s'.db.leases.get? runId).map Lease.generation =
      (s.db.leases.get? runId).map Lease.generation := by
  unfold releaseClaim at h
  simp only [bind_ok, require_ok, pure_ok] at h
  obtain ⟨_, -, rfl⟩ := h
  exact (parkWorkflowRun_leases host.sha256 s.db runId host.clock.claimToken
    host.clock.releasedAt).2.1

/-- Whatever becomes of it, the claim has been one. -/
theorem expireClaimed_generation (claimed : HumanDecisionStore) (candidate : TimeoutCandidate) :
    ((host.expireClaimed claimed candidate).1.db.leases.get? candidate.request.runId).map
        Lease.generation =
      (claimed.db.leases.get? candidate.request.runId).map Lease.generation := by
  unfold expireClaimed
  split
  · next resolved hresolved => exact (resolveCandidate_ok hresolved).2.1
  · dsimp only
    split
    · next released hreleased => exact releaseClaim_ok hreleased
    · rfl

/-! ## What a pass is for -/

/-- An expired decision that a pass could choose. -/
def Eligible (host : TimeoutHost) (s : HumanDecisionStore) (candidate : TimeoutCandidate) : Prop :=
  (∃ e ∈ host.expiredRows s, host.readRequestFromHash e = .ok candidate.request) ∧
    host.candidate? s candidate.request = some candidate ∧
    candidate.request.defaultResponse.isSome = true

/-- Its run can be claimed and the decision resolved under the claim. -/
def Resolvable (host : TimeoutHost) (s : HumanDecisionStore) (candidate : TimeoutCandidate) : Prop :=
  s.db.resolutions.get? candidate.request.decisionId = none ∧
    ∃ claimed resolved,
      host.claimWorkflowRunForControl s candidate.request.runId = .ok (some claimed) ∧
        host.resolveCandidate claimed candidate = .ok resolved

/-- The decision was open and is now resolved by its timeout policy. -/
def ResolvedByTimeout (s s' : HumanDecisionStore) (request : HumanDecisionRequest) : Prop :=
  s.db.resolutions.get? request.decisionId = none ∧
    ∃ row response, s'.db.resolutions.get? request.decisionId = some row ∧
      row.outcome = .ok response ∧ textMember response "provenance" = some "timeout"

/-- A pass resolves a decision if there is one that can be resolved, and touches nothing else. -/
def KeepsDeadlines (host : TimeoutHost) (s : HumanDecisionStore) : Prop :=
  ∃ resolved : Option HumanDecisionRequest,
    ((∃ candidate, host.Eligible s candidate ∧ host.Resolvable s candidate) →
      resolved.isSome = true) ∧
    (∀ request, resolved = some request →
      (∃ candidate, host.Eligible s candidate ∧ candidate.request = request) ∧
        ResolvedByTimeout s (host.expireTimedOutDecision s).1 request) ∧
    Spared resolved s (host.expireTimedOutDecision s).1

/-- The candidate of a pass that is made. -/
def chosen (host : TimeoutHost) (s : HumanDecisionStore) : Option TimeoutCandidate :=
  if host.server.stopping ∨ host.server.claimed = false ∨ host.server.decisionTimeoutActive then none
  else
    match host.chooseCandidate s with
    | .ok candidate => candidate
    | .error _ => none

/-- The run of the candidate is claimed, but the decision is not resolved. -/
def ClaimedInVain (host : TimeoutHost) (s : HumanDecisionStore) : Prop :=
  ∃ candidate claimed, host.chosen s = some candidate ∧
    host.claimWorkflowRunForControl s candidate.request.runId = .ok (some claimed) ∧
    ¬host.Resolvable s candidate

/-- What a pass does with its candidate. -/
theorem expireTimedOutDecision_cases (host : TimeoutHost) (s : HumanDecisionStore) :
    (∃ candidate claimed, host.chosen s = some candidate ∧
      host.claimWorkflowRunForControl s candidate.request.runId = .ok (some claimed) ∧
      (host.expireTimedOutDecision s).1 = (host.expireClaimed claimed candidate).1) ∨
    ((∀ candidate claimed, host.chosen s = some candidate →
      host.claimWorkflowRunForControl s candidate.request.runId ≠ .ok (some claimed)) ∧
      (host.expireTimedOutDecision s).1 = s) := by
  unfold expireTimedOutDecision chosen
  split
  · refine .inr ⟨fun candidate _ h => ?_, rfl⟩
    cases h
  · cases hchoose : host.chooseCandidate s with
    | error message =>
        refine .inr ⟨fun candidate _ h => ?_, rfl⟩
        cases h
    | ok choice =>
        cases choice with
        | none =>
            refine .inr ⟨fun candidate _ h => ?_, rfl⟩
            cases h
        | some candidate =>
            dsimp only
            cases hclaim : host.claimWorkflowRunForControl s candidate.request.runId with
            | error message =>
                refine .inr ⟨fun candidate' claimed h heq => ?_, rfl⟩
                cases h
                rw [hclaim] at heq
                cases heq
            | ok claim =>
                cases claim with
                | none =>
                    refine .inr ⟨fun candidate' claimed h heq => ?_, rfl⟩
                    cases h
                    rw [hclaim] at heq
                    cases heq
                | some claimed => exact .inl ⟨candidate, claimed, rfl, hclaim, rfl⟩

theorem candidate?_request {request : HumanDecisionRequest}
    (h : host.candidate? s request = some candidate) : candidate.request = request := by
  unfold candidate? at h
  simp only [Option.bind_eq_bind, Option.bind_eq_some_iff] at h
  obtain ⟨interaction, -, h⟩ := h
  split at h
  · cases h
    rfl
  · cases h

theorem chosen_eligible (h : host.chosen s = some candidate) : host.Eligible s candidate := by
  unfold chosen at h
  split at h
  · cases h
  split at h
  · next choice hchoose =>
      subst h
      unfold chooseCandidate listExpiredDefaultRequests at hchoose
      simp only [bind_ok, pure_ok] at hchoose
      obtain ⟨requests, hlist, hfound⟩ := hchoose
      obtain ⟨hfound, hdefault⟩ := Option.filter_eq_some_iff.1 hfound
      obtain ⟨request, hmem, hcandidate⟩ := List.exists_of_findSome?_eq_some hfound
      have hsame := candidate?_request hcandidate
      subst hsame
      exact ⟨source_of_mapM hlist _ hmem, hcandidate, hdefault⟩
  · cases h

/-- A transaction that fails leaves the resolutions as they are. -/
theorem expireClaimed_failed {claimed : HumanDecisionStore}
    (h : ∀ resolved, host.resolveCandidate claimed candidate ≠ .ok resolved) :
    (host.expireClaimed claimed candidate).1.db.resolutions = claimed.db.resolutions := by
  unfold expireClaimed
  split
  · next resolved hresolved => exact absurd hresolved (h resolved)
  · dsimp only
    split
    · next released hreleased =>
        unfold releaseClaim at hreleased
        simp only [bind_ok, require_ok, pure_ok] at hreleased
        obtain ⟨_, -, rfl⟩ := hreleased
        exact (parkWorkflowRun_leases host.sha256 claimed.db _ host.clock.claimToken
          host.clock.releasedAt).2.2.2.1
    · rfl

theorem claimed_generation {claimed : HumanDecisionStore} {runId : String}
    (h : host.claimWorkflowRunForControl s runId = .ok (some claimed)) :
    (claimed.db.leases.get? runId).map Lease.generation ≠
      (s.db.leases.get? runId).map Lease.generation := by
  obtain ⟨db, rfl, hlease, ⟨owner, hleases⟩, -⟩ := claimWorkflowRunForControl_ok h
  obtain ⟨lease, hlease⟩ := Option.isSome_iff_exists.1 hlease
  show (db.leases.get? runId).map Lease.generation ≠ _
  rw [hleases, Table.get?_update_self, hlease]
  intro heq
  exact Nat.succ_ne_self lease.generation (Option.some.inj heq)

/-- A claim in vain is seen in the lease of the run. -/
theorem not_keepsDeadlines_of_vain {claimed : HumanDecisionStore}
    (hclaim : host.claimWorkflowRunForControl s candidate.request.runId = .ok (some claimed))
    (hafter : (host.expireTimedOutDecision s).1 = (host.expireClaimed claimed candidate).1)
    (hvain : ¬host.Resolvable s candidate) : ¬host.KeepsDeadlines s := by
  rintro ⟨resolved, -, hresolved, hspared⟩
  rw [hafter] at hresolved hspared
  have hgeneration : ((host.expireClaimed claimed candidate).1.db.leases.get?
      candidate.request.runId).map Lease.generation =
        (claimed.db.leases.get? candidate.request.runId).map Lease.generation :=
    expireClaimed_generation claimed candidate
  by_cases hrun : ∃ request, resolved = some request ∧ candidate.request.runId = request.runId
  · obtain ⟨request, rfl, -⟩ := hrun
    obtain ⟨-, hopen, row, response, hrow, -⟩ := hresolved request rfl
    obtain ⟨db, rfl, -, -, -, hresolutions, -⟩ := claimWorkflowRunForControl_ok hclaim
    cases hresolve : host.resolveCandidate { s with db := db } candidate with
    | error message =>
        rw [expireClaimed_failed (fun resolved hok => by rw [hresolve] at hok; cases hok)] at hrow
        rw [show db.resolutions = s.db.resolutions from hresolutions, hopen] at hrow
        cases hrow
    | ok resolved =>
        have hresult : (host.expireClaimed { s with db := db } candidate).1 = resolved := by
          unfold expireClaimed
          rw [hresolve]
        rw [hresult] at hrow
        have hspared' := (claim_spared hclaim).trans (resolveCandidate_ok hresolve).1
        by_cases hsame : request.decisionId = candidate.request.decisionId
        · exact hvain ⟨hsame ▸ hopen, _, _, hclaim, hresolve⟩
        · rw [hspared'.resolutions request.decisionId fun other hother => by
            cases hother
            exact hsame, hopen] at hrow
          cases hrow
  · have hlease := hspared.leases candidate.request.runId fun request hrequest heq =>
      hrun ⟨request, hrequest, heq⟩
    rw [hlease] at hgeneration
    exact claimed_generation hclaim hgeneration.symm

/-- A pass keeps the deadlines exactly if its candidate can be resolved, or if no expired decision
can and no run is claimed for one. -/
theorem pass_keepsDeadlines_iff (host : TimeoutHost) (s : HumanDecisionStore) :
    host.KeepsDeadlines s ↔
      (∃ candidate, host.chosen s = some candidate ∧ host.Resolvable s candidate) ∨
        (¬host.ClaimedInVain s ∧
          ∀ candidate, host.Eligible s candidate → ¬host.Resolvable s candidate) := by
  rcases expireTimedOutDecision_cases host s with
    ⟨candidate, claimed, hchosen, hclaim, hafter⟩ | ⟨hnone, hafter⟩
  · by_cases hresolvable : host.Resolvable s candidate
    · refine iff_of_true ?_ (.inl ⟨candidate, hchosen, hresolvable⟩)
      obtain ⟨hopen, claimed', resolved, hclaim', hresolve⟩ := hresolvable
      rw [hclaim] at hclaim'
      cases hclaim'
      have hresult : (host.expireTimedOutDecision s).1 = resolved := by
        rw [hafter]
        unfold expireClaimed
        rw [hresolve]
      obtain ⟨hspared, -, hresolved⟩ := resolveCandidate_ok hresolve
      have hclaimed := claim_spared hclaim
      obtain ⟨db, rfl, -, -, -, hresolutions, -⟩ := claimWorkflowRunForControl_ok hclaim
      refine ⟨some candidate.request, fun _ => rfl, fun request hrequest => ?_, ?_⟩
      · cases hrequest
        rw [hresult]
        refine ⟨⟨candidate, chosen_eligible hchosen, rfl⟩, hopen, hresolved ?_⟩
        show db.resolutions.get? _ = none
        rw [hresolutions]
        exact hopen
      · rw [hresult]
        exact hclaimed.trans hspared
    · refine iff_of_false (not_keepsDeadlines_of_vain hclaim hafter hresolvable) ?_
      rintro (⟨candidate', hchosen', hresolvable'⟩ | ⟨hvain, -⟩)
      · rw [hchosen] at hchosen'
        cases hchosen'
        exact hresolvable hresolvable'
      · exact hvain ⟨candidate, claimed, hchosen, hclaim, hresolvable⟩
  · constructor
    · rintro ⟨resolved, hsome, hresolved, -⟩
      refine .inr ⟨?_, fun candidate heligible hresolvable => ?_⟩
      · rintro ⟨candidate, claimed, hchosen, hclaim, -⟩
        exact hnone candidate claimed hchosen hclaim
      · obtain ⟨request, rfl⟩ := Option.isSome_iff_exists.1 (hsome ⟨candidate, heligible, hresolvable⟩)
        obtain ⟨-, hopen, row, response, hrow, -⟩ := hresolved request rfl
        rw [hafter, hopen] at hrow
        cases hrow
    · rintro (⟨candidate, hchosen, -, claimed, -, hclaim, -⟩ | ⟨-, hunresolvable⟩)
      · exact absurd hclaim (hnone candidate claimed hchosen)
      · refine ⟨none, ?_, ?_, ?_⟩
        · rintro ⟨candidate, heligible, hresolvable⟩
          exact absurd hresolvable (hunresolvable candidate heligible)
        · intro request hrequest
          cases hrequest
        · rw [hafter]
          exact Spared.refl none s

end TimeoutHost

/-! ## A decision in the way -/

theorem integrity_of_members {sha256 : String → String} {normalize : Json → Except String Json}
    {request subject presentation presentation' : Json}
    (hschema : textMember request "schema" = some "pi-workflows.human-decision-request.v1")
    (hmembers : ∀ key ∈ ["subject", "presentation", "subjectDigest", "presentationDigest",
      "revision"], (request.member? key).isSome = true)
    (hsubject : request.member? "subject" = some subject)
    (hpresentation : request.member? "presentation" = some presentation)
    (hnormal : normalize presentation = .ok presentation')
    (hsubjectDigest : textMember request "subjectDigest" = some (digestCanonical sha256 subject))
    (hpresentationDigest : textMember request "presentationDigest" =
      some (digestCanonical sha256 presentation'))
    (hdigest : textMember request "requestDigest" =
      some (digestCanonical sha256 (requestBasis request presentation'))) :
    validateHumanDecisionRequestIntegrity sha256 normalize request =
      .ok (digestCanonical sha256 (requestBasis request presentation')) := by
  simp only [validateHumanDecisionRequestIntegrity, bind_ok, require_ok, orThrow_ok, pure_ok]
  exact ⟨.unit, ⟨hschema, hmembers⟩, subject, hsubject, presentation, hpresentation,
    presentation', hnormal, .unit, hsubjectDigest, .unit, hpresentationDigest, .unit, hdigest, rfl⟩

namespace TimeoutHost

open HumanDecisionStore

/-- A question that is answered with its one choice after ten minutes. -/
def overdueDraft : HumanDecisionRequest :=
  { goDraft with
    expiresAt := some "2026-01-01T00:10:00.000Z"
    defaultResponse := some (.obj [("choice", .str "go")]) }

def overdueRequest : HumanDecisionRequest :=
  { overdueDraft with
    requestDigest := digestCanonical id (requestBasis overdueDraft.json goPresentation) }

def overdueInteraction : RequestRow :=
  { runId := "run", attemptId := "attempt", targetSessionId := "session", kind := .decision
    contract := .null, revision := 1, status := .pending, createdAt := 0, updatedAt := 0 }

/-- Two decisions whose deadlines have passed. The request of the first is not what was asked. -/
def overdueStore : HumanDecisionStore where
  db :=
    { waitingDb with
      runQueue := Table.empty.insert "run"
        { status := .parked, availableAt := 0, originSessionId := none, createdAt := 0
          updatedAt := 0 } (Table.get?_empty _)
      leases := Table.empty.insert "run" ⟨0, none⟩ (Table.get?_empty _)
      requests := Table.empty.insert "decision" overdueInteraction rfl
      decisions := (Table.empty.insert "broken" ⟨"other", "attempt", .null, ""⟩ rfl).insert
        "decision"
        ⟨"run", "attempt", storedJson overdueRequest.json, overdueRequest.requestDigest⟩ rfl }
  deadlines := (Table.empty.insert "broken" (some 0) rfl).insert "decision" (some 0) rfl
  answers := .empty

def overdueHost : TimeoutHost where
  sha256 := id
  dates := ⟨fun _ => some 0, fun time => toString time⟩
  normalizeDecisionPresentation := .ok
  hasDefault := fun _ => true
  server := { serverId := "server-1", runClaimLeaseMs := 30000 }
  clock := ⟨1, 1, 1, 1, 1, 1, "token"⟩

def claimedStore : HumanDecisionStore :=
  { overdueStore with
    db := (overdueStore.db.updateLease "run" fun lease => lease.claim
      { type := .server, id := "server-1", tokenHash := "token", acquiredAt := 1, heartbeatAt := 1
        expiresAt := 30001 }).bumpRun "run" }

theorem overdueRequest_valid {request : Json}
    (h : request = overdueRequest.json ∨ request = storedJson overdueRequest.json) :
    validateHumanDecisionRequestIntegrity id .ok request = .ok overdueRequest.requestDigest := by
  have hbasis : requestBasis request goPresentation =
      requestBasis overdueDraft.json goPresentation := by
    rcases h with rfl | rfl <;> rfl
  have htext : ∀ key, textMember request key = textMember overdueRequest.json key := by
    rcases h with rfl | rfl
    · exact fun _ => rfl
    · exact fun key => textMember_storedJson _ key
  have hmembers : request.member? "subject" = some .null ∧
      request.member? "presentation" = some goPresentation ∧
      ∀ key ∈ ["subject", "presentation", "subjectDigest", "presentationDigest", "revision"],
        (request.member? key).isSome = true := by
    rcases h with rfl | rfl
    · exact ⟨rfl, rfl, by decide⟩
    · exact ⟨rfl, rfl, by decide⟩
  have hvalid : validateHumanDecisionRequestIntegrity id .ok request =
      .ok (digestCanonical id (requestBasis request goPresentation)) :=
    integrity_of_members ((htext _).trans rfl) hmembers.2.2 hmembers.1 hmembers.2.1 rfl
      ((htext _).trans rfl) ((htext _).trans rfl) (by rw [htext, hbasis]; rfl)
  rw [hvalid, hbasis]
  rfl

theorem overdue_eligible : overdueHost.Eligible overdueStore ⟨overdueRequest, overdueInteraction⟩ := by
  refine ⟨⟨("decision",
    ⟨"run", "attempt", storedJson overdueRequest.json, overdueRequest.requestDigest⟩), ?_, ?_⟩,
    rfl, rfl⟩
  · exact List.mem_mergeSort.2 (List.mem_filter.2 ⟨List.mem_cons_of_mem _ List.mem_cons_self, rfl⟩)
  · simp only [readRequestFromHash, bind_ok, require_ok, orThrow_ok]
    exact ⟨.unit, rfl, _, overdueRequest_valid (.inr rfl), rfl⟩

/-- Who holds the run while the decision is resolved. -/
def overdueAuthority : RunWriteAuthority := ⟨.server, "server-1", "token", 1, some 30000⟩

def overdueDecision : ResolvedHumanDecision :=
  { decisionId := "decision", requestDigest := overdueRequest.requestDigest
    response := ⟨"go", none⟩, provenance := .timeout, acceptedAt := 1
    answerDigest := digest id (.obj [("provenance", .str "timeout"),
      ("requestDigest", .str overdueRequest.requestDigest),
      ("response", .obj [("choice", .str "go")])])
    subjectDigest := overdueRequest.subjectDigest
    presentationDigest := overdueRequest.presentationDigest, revision := 1 }

def overdueAttempt : AcceptanceAttempt :=
  { attemptId := timeoutAttemptId id "decision", source := .policy, actorId := some "server-1"
    channel := none, candidate := .obj [("choice", .str "go")] }

theorem policyAnswer_overdue :
    claimedStore.policyAnswer id overdueHost.dates .ok overdueRequest (some overdueAuthority) 1 =
      .ok (overdueDecision, overdueAttempt) := by
  simp only [policyAnswer, overdueRequest_valid (.inl rfl), bind_ok, require_ok, orThrow_ok,
    pure_ok]
  exact ⟨_, rfl, _, rfl, _, rfl, .unit, rfl, .unit, rfl, ⟨"go", none⟩, rfl, rfl⟩

theorem checkAcceptance_overdue :
    claimedStore.checkAcceptance id .ok overdueRequest (some overdueAuthority) overdueAttempt 1 =
      .ok .unit := by
  simp only [checkAcceptance, requireStoredRequest, bind_ok, require_ok, orThrow_ok, onlyIf_ok]
  exact ⟨.unit, ⟨_, rfl, _, overdueRequest_valid (.inr rfl),
    canonicalJson_eq_iff_same.2 (sameJson_normalize overdueRequest.json)⟩, some 0, rfl, .unit,
    (fun h => by cases h), .unit, fun _ => rfl, .unit, fun _ => rfl, rfl⟩

theorem resolveAccepted_overdue :
    ∃ accepted, (claimedStore.insertAnswer "decision" overdueAttempt 1).resolveAccepted id
        overdueHost.dates overdueRequest overdueAttempt overdueDecision =
          .ok (accepted, .accepted, overdueDecision.json overdueHost.dates) ∧
      ∃ result, submitInteraction id accepted.db 1
          { requestId := "decision", submissionId := "timeout-decision"
            idempotencyKey := "timeout-decision", expectedRevision := 1
            payload := .obj [("choice", .str "go")]
            receipt := some (overdueDecision.json overdueHost.dates) } true = .ok result ∧
        (parkWorkflowRun id result.1 "run" "token" 1).2 = true :=
  ⟨_, rfl, _, rfl, rfl⟩

theorem overdue_resolvable :
    overdueHost.Resolvable overdueStore ⟨overdueRequest, overdueInteraction⟩ := by
  obtain ⟨accepted, haccepted, result, hsubmitted, hparked⟩ := resolveAccepted_overdue
  have hresolved : claimedStore.resolveTimeout id overdueHost.dates .ok overdueRequest
      (some overdueAuthority) 1 =
        .ok (accepted, .accepted, overdueDecision.json overdueHost.dates) := by
    simp only [resolveTimeout, bind_ok, attemptAcceptance]
    exact ⟨_, policyAnswer_overdue, .unit, checkAcceptance_overdue, none, rfl, haccepted⟩
  have hcandidate : overdueHost.resolveCandidate claimedStore
      ⟨overdueRequest, overdueInteraction⟩ =
        .ok { accepted with db := (parkWorkflowRun id result.1 "run" "token" 1).1 } := by
    simp only [resolveCandidate, bind_ok, require_ok, orThrow_ok, pure_ok]
    exact ⟨.unit, rfl, _, hresolved, _, rfl, _, hsubmitted, .unit, hparked, rfl⟩
  exact ⟨rfl, claimedStore, _, rfl, hcandidate⟩

/-- The pass ends with the decision it cannot read. -/
theorem overdue_missed :
    (∃ candidate, overdueHost.Eligible overdueStore candidate ∧
      overdueHost.Resolvable overdueStore candidate) ∧
    (overdueHost.expireTimedOutDecision overdueStore).1 = overdueStore ∧
    ¬overdueHost.KeepsDeadlines overdueStore := by
  have hlist : ∀ choice, overdueHost.chooseCandidate overdueStore ≠ .ok choice := by
    intro choice h
    simp only [chooseCandidate, listExpiredDefaultRequests, bind_ok] at h
    obtain ⟨requests, hrequests, -⟩ := h
    obtain ⟨request, -, hread⟩ := ok_of_mapM hrequests ("broken", ⟨"other", "attempt", .null, ""⟩)
      (List.mem_mergeSort.2 (List.mem_filter.2 ⟨List.mem_cons_self, rfl⟩))
    cases hread
  have hsame : (overdueHost.expireTimedOutDecision overdueStore).1 = overdueStore := by
    unfold expireTimedOutDecision
    rw [if_neg (by decide)]
    split
    · rfl
    · rfl
    · next candidate hchoice => exact absurd hchoice (hlist _)
  refine ⟨⟨_, overdue_eligible, overdue_resolvable⟩, hsame, ?_⟩
  rintro ⟨resolved, hsome, hresolved, -⟩
  obtain ⟨request, rfl⟩ :=
    Option.isSome_iff_exists.1 (hsome ⟨_, overdue_eligible, overdue_resolvable⟩)
  obtain ⟨-, hopen, row, response, hrow, -⟩ := hresolved request rfl
  rw [hsame, hopen] at hrow
  cases hrow

end TimeoutHost

end PiWorkflows
