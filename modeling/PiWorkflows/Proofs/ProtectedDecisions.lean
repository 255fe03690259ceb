import PiWorkflows.Proofs.ExpiredDecisions
import PiWorkflows.Proofs.RequestOutcome
import PiWorkflows.Server.Interactions

/-!
# Only a decision answers a decision

Two operations settle a request. Where a submission is recorded as the answer at once, the
resolution of the decision is read in the same transaction. Where a candidate is looked at
and accepted, nothing is read, but there is no candidate for a decision: the only way in
asks for a request of an agent or of an assistant, and what kind a request is of never
changes (`CandidatesPlain`).

An answer is tried in one transaction. If its submission is refused, the acceptance before
it is taken back with it.
-/

namespace PiWorkflows

open Fallible Transaction

/-- The decision of a request is accepted for its run and attempt, with the response that the
submission carries. -/
def DecisionVerified (db : Db) (requestId : String) (request : RequestRow) (submissionId : String) :
    Prop :=
  ∃ submission decision resolution response,
    db.submissions.get? submissionId = some submission ∧ submission.requestId = requestId ∧
      submission.outcome = .accepted ∧
      db.decisions.get? requestId = some decision ∧ decision.runId = request.runId ∧
      decision.attemptId = request.attemptId ∧
      db.resolutions.get? requestId = some resolution ∧ resolution.outcome = .ok response ∧
      (response.member? "response").map canonicalJson = some (canonicalJson submission.payload)

/-- No decision has a candidate. -/
def CandidatesPlain (db : Db) : Prop :=
  ∀ id submission, db.submissions.get? id = some submission → submission.outcome = .validating →
    ∃ request, db.requests.get? submission.requestId = some request ∧ request.kind ≠ .decision

/-- What is done to the row of a request where nobody settles it. -/
structure Unsettled (row row' : Option RequestRow) : Prop where
  kept : ∀ request, row = some request →
    ∃ request', row' = some request' ∧ request'.kind = request.kind
  settled : ∀ request', row' = some request' → ∀ id time, request'.status = .settled id time →
    ∃ request, row = some request ∧ request.status = .settled id time

/-- What is done to requests, with nothing but a decision for a decision. -/
structure Protected (db db' : Db) : Prop where
  kept : ∀ id request, db.requests.get? id = some request →
    ∃ request', db'.requests.get? id = some request' ∧ request'.kind = request.kind
  settled : ∀ id request', db'.requests.get? id = some request' → request'.kind = .decision →
    ∀ submissionId time, request'.status = .settled submissionId time →
      (∃ request, db.requests.get? id = some request ∧
        request.status = .settled submissionId time) ∨
      DecisionVerified db' id request' submissionId
  candidates : ∀ id submission', db'.submissions.get? id = some submission' →
    submission'.outcome = .validating →
      (∃ submission, db.submissions.get? id = some submission ∧ submission.outcome = .validating ∧
        submission.requestId = submission'.requestId) ∨
      ∃ request, db.requests.get? submission'.requestId = some request ∧ request.kind ≠ .decision

/-! ## Rows of requests -/

theorem Unsettled.refl (row : Option RequestRow) : Unsettled row row :=
  ⟨fun request h => ⟨request, h, rfl⟩, fun request' h _ _ hstatus => ⟨request', h, hstatus⟩⟩

theorem Unsettled.trans {row row' row'' : Option RequestRow} (h : Unsettled row row')
    (h' : Unsettled row' row'') : Unsettled row row'' := by
  constructor
  · intro request hrequest
    obtain ⟨middle, hmiddle, hkind⟩ := h.kept request hrequest
    obtain ⟨last, hlast, hkind'⟩ := h'.kept middle hmiddle
    exact ⟨last, hlast, hkind'.trans hkind⟩
  · intro last hlast id time hstatus
    obtain ⟨middle, hmiddle, hstatus'⟩ := h'.settled last hlast id time hstatus
    exact h.settled middle hmiddle id time hstatus'

/-- A row that is written where it is there, and not settled. -/
theorem Unsettled.write {row : Option RequestRow} {f : RequestRow → RequestRow}
    (hkind : ∀ request, (f request).kind = request.kind)
    (hstatus : ∀ request id time, row = some request → (f request).status = .settled id time →
      request.status = .settled id time) : Unsettled row (row.map f) := by
  constructor
  · rintro request rfl
    exact ⟨f request, rfl, hkind request⟩
  · intro request' hrequest' id time hsettled
    obtain ⟨request, rfl, rfl⟩ := Option.map_eq_some_iff.1 hrequest'
    exact ⟨request, rfl, hstatus request id time rfl hsettled⟩

section

variable {db db' mid : Db} {now : Int} {id : String}

theorem cancelRequest_unsettled {request : RequestRow} {submissionId : String} {time : Int} :
    (cancelRequest now request).status ≠ .settled submissionId time := nofun

theorem cancelPendingRequests_unsettled {runId : String} :
    Unsettled (db.requests.get? id) ((cancelPendingRequests db runId now).requests.get? id) := by
  rw [cancelPendingRequests]
  dsimp only
  rw [Table.get?_updateWhere]
  refine .write (fun request => ?_) fun request submissionId time _ hsettled => ?_
  · split <;> rfl
  · split at hsettled
    · cases hsettled
    · exact hsettled

theorem expireRequest_unsettled {requestId error : String} :
    Unsettled (db.requests.get? id) ((expireRequest db requestId error now).requests.get? id) := by
  show Unsettled (db.requests.get? id) ((db.requests.update requestId (cancelRequest now)).get? id)
  rw [Table.get?_update]
  split
  · exact .write (fun _ => rfl) fun _ _ _ _ hsettled => absurd hsettled cancelRequest_unsettled
  · exact .refl _

theorem consumeRequest_unsettled {runId attemptId : String} :
    Unsettled (db.requests.get? id) ((consumeRequest db now runId attemptId).requests.get? id) := by
  rw [consumeRequest]
  dsimp only
  rw [Table.get?_updateWhere]
  refine .write (fun request => ?_) fun request submissionId time _ hsettled => ?_
  · split <;> rfl
  · split at hsettled <;> exact hsettled

theorem RequestMade.unsettled (h : RequestMade db db') :
    Unsettled (db.requests.get? id) (db'.requests.get? id) := by
  cases h with
  | none hsame => rw [hsame]; exact .refl _
  | made requestId request hpending hinsert =>
      obtain ⟨hfree, hget⟩ := Table.get?_of_insert? hinsert
      rw [hget]
      split
      · next heq =>
          subst heq
          rw [hfree]
          refine ⟨fun _ h => (by cases h), fun request' hrequest' _ _ hsettled => ?_⟩
          cases hrequest'
          rw [hpending] at hsettled
          cases hsettled
      · exact .refl _

/-! ## Changes that settle nothing -/

/-- Candidates are only turned down. -/
theorem rejectValidating_candidates {isRejected : String → Bool} {error : String}
    {submission' : SubmissionRow}
    (h : (rejectValidating db isRejected error).submissions.get? id = some submission')
    (houtcome : submission'.outcome = .validating) :
    db.submissions.get? id = some submission' := by
  rw [rejectValidating] at h
  dsimp only at h
  rw [Table.get?_updateWhere] at h
  obtain ⟨submission, hsubmission, hrow⟩ := Option.map_eq_some_iff.1 h
  split at hrow
  · rw [← hrow] at houtcome
    cases houtcome
  · rw [hsubmission, hrow]

theorem Protected.of_unsettled
    (hrequests : ∀ id, Unsettled (db.requests.get? id) (db'.requests.get? id))
    (hsubmissions : ∀ id submission', db'.submissions.get? id = some submission' →
      submission'.outcome = .validating → db.submissions.get? id = some submission') :
    Protected db db' where
  kept id := (hrequests id).kept
  settled id request' hrequest' _ submissionId time hsettled :=
    .inl ((hrequests id).settled request' hrequest' submissionId time hsettled)
  candidates id submission' hsubmission' houtcome :=
    .inl ⟨submission', hsubmissions id submission' hsubmission' houtcome, houtcome, rfl⟩

theorem Protected.of_same (hrequests : db'.requests = db.requests)
    (hsubmissions : db'.submissions = db.submissions) : Protected db db' :=
  .of_unsettled (fun _ => hrequests ▸ .refl _) fun _ _ h _ => hsubmissions ▸ h

/-- Before it, neither requests nor submissions were written. -/
theorem Protected.behind (h : Protected mid db') (hrequests : mid.requests = db.requests)
    (hsubmissions : mid.submissions = db.submissions) : Protected db db' := by
  rcases h with ⟨hkept, hsettled, hcandidates⟩
  rw [hrequests] at hkept hsettled hcandidates
  rw [hsubmissions] at hcandidates
  exact ⟨hkept, hsettled, hcandidates⟩

/-- Behind it, nothing is written that it is about. -/
theorem Protected.before (h : Protected db mid) (hrequests : db'.requests = mid.requests)
    (hsubmissions : db'.submissions = mid.submissions) (hdecisions : db'.decisions = mid.decisions)
    (hresolutions : db'.resolutions = mid.resolutions) : Protected db db' := by
  rcases h with ⟨hkept, hsettled, hcandidates⟩
  simp only [DecisionVerified, ← hrequests, ← hsubmissions, ← hdecisions, ← hresolutions]
    at hkept hsettled hcandidates
  exact ⟨hkept, hsettled, hcandidates⟩

theorem Protected.plain (h : Protected db db') (hplain : CandidatesPlain db) : CandidatesPlain db' := by
  intro id submission' hsubmission' houtcome
  have hbefore : ∃ request, db.requests.get? submission'.requestId = some request ∧
      request.kind ≠ .decision := by
    rcases h.candidates id submission' hsubmission' houtcome with
      ⟨submission, hsubmission, hvalidating, hof⟩ | hnew
    · rw [← hof]
      exact hplain id submission hsubmission hvalidating
    · exact hnew
  obtain ⟨request, hrequest, hkind⟩ := hbefore
  obtain ⟨request', hrequest', hkind'⟩ := h.kept _ request hrequest
  exact ⟨request', hrequest', hkind' ▸ hkind⟩

theorem execute_protected {sha256 : String → String} {operation : QueueOperation}
    {answer : QueueAnswer} (h : execute sha256 db operation = .ok (db', answer)) :
    Protected db db' := by
  cases execute_dependents h with
  | same hrows => exact .of_same hrows.requests hrows.submissions
  | settled runId effectType now hrows => exact .of_same hrows.requests hrows.submissions
  | expired requestId error now request hrequest hpending hrows =>
      refine .of_unsettled (fun id => ?_) fun id submission' hsubmission' houtcome => ?_
      · rw [hrows.requests]
        exact expireRequest_unsettled
      · rw [hrows.submissions] at hsubmission'
        have hrejected := rejectValidating_candidates hsubmission' houtcome
        exact hrejected
  | failed runId now hrows =>
      refine .of_unsettled (fun id => ?_) fun id submission' hsubmission' _ => ?_
      · rw [hrows.requests]
        exact cancelPendingRequests_unsettled
      · rwa [hrows.submissions] at hsubmission'
  | cancelled runId effectError submissionError now hrows =>
      refine .of_unsettled (fun id => ?_) fun id submission' hsubmission' houtcome => ?_
      · rw [hrows.requests]
        exact cancelPendingRequests_unsettled
      · rw [hrows.submissions] at hsubmission'
        exact rejectValidating_candidates hsubmission' houtcome

theorem commitTransition_protected {sha256 : String → String} {dates : HostDates} {runId : String}
    {options : CommitOptions} {transition : WorkflowTransition}
    (h : commitTransition sha256 dates db runId options transition = .ok db') : Protected db db' := by
  have hsubmissions : db'.submissions = db.submissions := by
    obtain ⟨prepared, persisted, consumed, hprepared, hpersisted, hconsumed, hsettled⟩ :=
      (commitTransition_change h).writes
    have hpersisted : persisted.submissions = prepared.submissions := by
      rcases hpersisted with hsame | ⟨state, now, revision, hrows⟩
      · exact hsame.submissions
      · exact hrows.submissions.trans enqueueRunSettlementEffect_frame.2.1
    have hconsumed : consumed.submissions = persisted.submissions := by
      rcases hconsumed with hsame | ⟨now, runId, attemptId, hrows⟩
      · exact hsame.submissions
      · exact hrows.submissions
    have hsettled : db'.submissions = consumed.submissions := by
      rcases hsettled with hsame | ⟨runId, now, effectType, hrows⟩
      · exact hsame.submissions
      · exact hrows.submissions
    rw [hsettled, hconsumed, hpersisted, hprepared.submissions]
  refine .of_unsettled (fun id => ?_) fun _ _ hsubmission' _ => hsubmissions ▸ hsubmission'
  obtain ⟨prepared, persisted, consumed, hprepared, hpersisted, hconsumed, hsettled⟩ :=
    (commitTransition_change h).writes
  have hpersisted : persisted.requests = prepared.requests := by
    rcases hpersisted with hsame | ⟨state, now, revision, hrows⟩
    · exact hsame.requests
    · exact hrows.requests.trans enqueueRunSettlementEffect_frame.1
  have hsettled : db'.requests = consumed.requests := by
    rcases hsettled with hsame | ⟨runId, now, effectType, hrows⟩
    · exact hsame.requests
    · exact hrows.requests
  refine (RequestMade.unsettled hprepared.requests).trans ?_
  rw [hsettled, ← hpersisted]
  rcases hconsumed with hsame | ⟨now, runId, attemptId, hrows⟩
  · rw [hsame.requests]
    exact .refl _
  · rw [hrows.requests]
    exact consumeRequest_unsettled

theorem resumePendingInteraction_protected {runId : String} {answer : RequestRow}
    (h : resumePendingInteraction db now runId = .ok (db', answer)) : Protected db db' := by
  unfold resumePendingInteraction at h
  simp only [bind_ok, orThrow_ok] at h
  obtain ⟨⟨requestId, request⟩, -, h⟩ := h
  dsimp only at h
  split at h
  · cases h
    exact .of_same rfl rfl
  · simp only [pure_ok, Prod.mk.injEq] at h
    obtain ⟨rfl, -⟩ := h
    refine .of_unsettled (fun id => ?_) fun _ _ hsubmission' _ => hsubmission'
    dsimp only
    rw [Table.get?_update]
    split
    · exact .write (fun _ => rfl) fun _ _ _ _ hsettled => hsettled
    · exact .refl _

/-! ## Submissions -/

/-- A submission that is recorded without settling its request is about no decision if it is a
candidate. -/
theorem beginInteractionValidation_protected {sha256 : String → String}
    {options : InteractionOptions} {answer : SubmissionAnswer} {request : RequestRow}
    (hrequest : db.requests.get? options.requestId = some request) (hkind : request.kind ≠ .decision)
    (h : beginInteractionValidation sha256 db now options = .ok (db', answer)) :
    Protected db db' := by
  rcases recordWorkflowSubmission_ok h with rfl | ⟨_, submission, submissions, -, -, -, hof, -, -,
    hinsert, rfl⟩
  · exact .of_same rfl rfl
  · obtain ⟨-, hget⟩ := Table.get?_of_insert? hinsert
    refine ⟨fun id request hrequest => ⟨request, hrequest, rfl⟩,
      fun id request' hrequest' _ submissionId time hsettled => .inl ⟨request', hrequest', hsettled⟩,
      fun id submission' hsubmission' houtcome => ?_⟩
    dsimp only at hsubmission'
    rw [hget] at hsubmission'
    split at hsubmission'
    · cases hsubmission'
      exact .inr ⟨request, hof ▸ hrequest, hkind⟩
    · exact .inl ⟨submission', hsubmission', houtcome, rfl⟩

/-- What is accepted at once is about no decision, or about one that is resolved as it says. -/
theorem submitInteraction_protected {sha256 : String → String} {options : InteractionOptions}
    {answer : SubmissionAnswer}
    (h : submitInteraction sha256 db now options true = .ok (db', answer)) : Protected db db' := by
  unfold submitInteraction recordWorkflowSubmission at h
  simp only [bind_ok, orThrow_ok] at h
  obtain ⟨request, hrequest, h⟩ := h
  split at h
  · simp only [bind_ok, pure_ok, Prod.mk.injEq] at h
    obtain ⟨_, -, rfl, -⟩ := h
    exact .of_same rfl rfl
  · simp only [bind_ok, orThrow_ok, pure_ok, Prod.mk.injEq, checkSubmission, require_ok, onlyIf_ok,
      if_true] at h
    obtain ⟨_, ⟨_, ⟨-, hpending⟩, _, -, _, -, hverified⟩, submissions, hinsert, rfl, -⟩ := h
    obtain ⟨hfree, hget⟩ := Table.get?_of_insert? hinsert
    refine ⟨fun id request' hrequest' => ?_,
      fun id request' hrequest' hkind submissionId time hsettled => ?_,
      fun id submission' hsubmission' houtcome => ?_⟩
    · dsimp only
      rw [Table.get?_update]
      split
      · rw [hrequest']
        exact ⟨_, rfl, rfl⟩
      · exact ⟨request', hrequest', rfl⟩
    · dsimp only at hrequest'
      rw [Table.get?_update] at hrequest'
      split at hrequest'
      · next heq =>
          subst heq
          rw [hrequest, Option.map_some] at hrequest'
          cases hrequest'
          cases hsettled
          right
          have hverified := hverified ⟨hkind, trivial⟩
          obtain ⟨response, hresponse, hcanonical⟩ := Option.map_eq_some_iff.1 hverified
          simp only [verifiedResponse, Option.bind_eq_bind, Option.bind_eq_some_iff] at hresponse
          obtain ⟨decision, hdecision, resolution, hresolution, hresponse⟩ := hresponse
          split at hresponse
          · next hof =>
              split at hresponse
              · next accepted haccepted =>
                  refine ⟨_, decision, resolution, accepted, (hget _).trans (if_pos rfl), rfl, rfl,
                    hdecision, hof.1, hof.2, hresolution, haccepted, ?_⟩
                  rw [hresponse, Option.map_some, hcanonical]
                  exact congrArg some (canonicalJson_eq_iff.2 (normalizeJson_idem _)).symm
              · cases hresponse
          · cases hresponse
      · exact .inl ⟨request', hrequest', hsettled⟩
    · dsimp only at hsubmission'
      rw [hget] at hsubmission'
      split at hsubmission'
      · cases hsubmission'
        cases houtcome
      · exact .inl ⟨submission', hsubmission', houtcome, rfl⟩

/-- A candidate that is looked at is about no decision. -/
theorem finishInteractionValidation_protected {requestId submissionId : String} {accepted : Bool}
    {receipt : Json} {answer : SubmissionRow} (hplain : CandidatesPlain db)
    (h : finishInteractionValidation db now requestId submissionId accepted receipt =
      .ok (db', answer)) : Protected db db' := by
  rcases finishInteractionValidation_ok h with rfl | ⟨request, submission, hsubmission, hof,
    hvalidating, hrequest, -, rfl⟩
  · exact .of_same rfl rfl
  · obtain ⟨request', hrequest', hkind⟩ := hplain _ _ hsubmission hvalidating
    rw [hof, hrequest] at hrequest'
    cases hrequest'
    refine ⟨fun id request' hrequest' => ?_,
      fun id request' hrequest' hdecision sid time hsettled => ?_,
      fun id submission' hsubmission' houtcome => ?_⟩
    · dsimp only
      split
      · rw [Table.get?_update]
        split
        · rw [hrequest']
          exact ⟨_, rfl, rfl⟩
        · exact ⟨request', hrequest', rfl⟩
      · exact ⟨request', hrequest', rfl⟩
    · left
      dsimp only at hrequest'
      split at hrequest'
      · rw [Table.get?_update] at hrequest'
        split at hrequest'
        · next heq =>
            subst heq
            rw [hrequest, Option.map_some] at hrequest'
            cases hrequest'
            exact absurd hdecision hkind
        · exact ⟨request', hrequest', hsettled⟩
      · exact ⟨request', hrequest', hsettled⟩
    · left
      dsimp only at hsubmission'
      rw [Table.get?_update] at hsubmission'
      split at hsubmission'
      · obtain ⟨submission, -, rfl⟩ := Option.map_eq_some_iff.1 hsubmission'
        rw [finishSubmission] at houtcome
        cases accepted <;> cases houtcome
      · exact ⟨submission', hsubmission', houtcome, rfl⟩

end

/-! ## Decisions -/

section

variable {sha256 : String → String} {dates : HostDates} {normalize : Json → Except String Json}
  {s s' : HumanDecisionStore}

theorem accept_frame {request : HumanDecisionRequest} {submission : HumanDecisionSubmission}
    {clock : AnswerClock} {answer : AcceptanceStatus × Json}
    (h : s.accept sha256 dates normalize request submission clock = .ok (s', answer)) :
    s'.db.requests = s.db.requests ∧ s'.db.submissions = s.db.submissions := by
  simp only [HumanDecisionStore.accept, bind_ok] at h
  obtain ⟨_, -, h⟩ := h
  exact (HumanDecisionStore.attemptAcceptance_frame h).2

/-- An answer that comes too late is only recorded as one. -/
theorem accept_conflict {request : HumanDecisionRequest} {submission : HumanDecisionSubmission}
    {clock : AnswerClock} {decision : Json}
    (h : s.accept sha256 dates normalize request submission clock = .ok (s', .conflict, decision)) :
    s'.db = s.db := by
  simp only [HumanDecisionStore.accept, HumanDecisionStore.attemptAcceptance, bind_ok] at h
  obtain ⟨_, -, _, -, winner, -, h⟩ := h
  cases winner with
  | none =>
      simp only [HumanDecisionStore.resolveAccepted, bind_ok, pure_ok, Prod.mk.injEq] at h
      obtain ⟨_, -, _, -, -, hstatus, -⟩ := h
      cases hstatus
  | some winner =>
      cases winner with
      | cancelled reason => cases h
      | accepted won =>
          simp only [HumanDecisionStore.answerResolved] at h
          split at h <;> cases h
          rfl

theorem createRequest_frame {request : HumanDecisionRequest}
    (h : s.createRequest sha256 dates normalize request = .ok s') :
    s'.db.requests = s.db.requests ∧ s'.db.submissions = s.db.submissions := by
  unfold HumanDecisionStore.createRequest createDecision at h
  simp only [bind_ok, pure_ok] at h
  obtain ⟨db, ⟨_, -, h⟩, rfl⟩ := h
  split at h
  · simp only [bind_ok, pure_ok] at h
    obtain ⟨_, -, rfl⟩ := h
    exact ⟨rfl, rfl⟩
  · simp only [bind_ok, pure_ok] at h
    obtain ⟨_, -, _, -, _, -, rfl⟩ := h
    exact ⟨rfl, rfl⟩

theorem cancel_frame {request : HumanDecisionRequest} {reason : CancellationReason}
    {authority : Option RunWriteAuthority} {now : Int} {adopted : Bool}
    (h : s.cancel sha256 dates normalize request reason authority now = .ok (s', adopted)) :
    s'.db.requests = s.db.requests ∧ s'.db.submissions = s.db.submissions := by
  unfold HumanDecisionStore.cancel at h
  simp only [bind_ok] at h
  obtain ⟨_, -, _, -, _, -, winner, -, h⟩ := h
  cases winner with
  | some winner =>
      cases winner with
      | cancelled other =>
          simp only [bind_ok, pure_ok, Prod.mk.injEq] at h
          obtain ⟨_, -, rfl, -⟩ := h
          exact ⟨rfl, rfl⟩
      | accepted _ => cases h
  | none =>
      unfold HumanDecisionStore.resolveCancelled at h
      simp only [map_ok, bind_ok, orThrow_ok, pure_ok, Prod.mk.injEq] at h
      obtain ⟨_, ⟨_, -, _, -, _, heffects, rfl⟩, rfl, -⟩ := h
      obtain ⟨_, rfl⟩ := HumanDecisionStore.enqueueResolutionEffects_frame heffects
      exact ⟨rfl, rfl⟩

end

/-! ## Expired decisions -/

namespace TimeoutHost

variable {host : TimeoutHost} {s s' : HumanDecisionStore} {candidate : TimeoutCandidate}

theorem parkWorkflowRun_submissions (sha256 : String → String) (db : Db) (runId token : String)
    (now : Int) : (parkWorkflowRun sha256 db runId token now).1.submissions = db.submissions := by
  unfold parkWorkflowRun releaseRunClaim
  split <;> rfl

theorem resolveCandidate_protected (h : host.resolveCandidate s candidate = .ok s') :
    Protected s.db s'.db := by
  unfold resolveCandidate at h
  simp only [bind_ok, require_ok, orThrow_ok, pure_ok] at h
  obtain ⟨_, -, ⟨accepted, status, decision⟩, haccepted, payload, -, ⟨submitted, answer⟩, hsubmitted,
    _, -, rfl⟩ := h
  have hframe : accepted.db.requests = s.db.requests ∧
      accepted.db.submissions = s.db.submissions := by
    simp only [HumanDecisionStore.resolveTimeout, bind_ok] at haccepted
    obtain ⟨_, -, haccepted⟩ := haccepted
    exact (HumanDecisionStore.attemptAcceptance_frame haccepted).2
  obtain ⟨-, -, hdecisions, hresolutions, hrequests⟩ :=
    parkWorkflowRun_leases host.sha256 submitted candidate.request.runId host.clock.claimToken
      host.clock.parkedAt
  have hsubmissions := parkWorkflowRun_submissions host.sha256 submitted candidate.request.runId
    host.clock.claimToken host.clock.parkedAt
  have hresolved := (submitInteraction_protected hsubmitted).behind hframe.1 hframe.2
  exact hresolved.before hrequests hsubmissions hdecisions hresolutions

theorem claimWorkflowRunForControl_same {runId : String} {claimed : HumanDecisionStore}
    (h : host.claimWorkflowRunForControl s runId = .ok (some claimed)) :
    claimed.db.requests = s.db.requests ∧ claimed.db.submissions = s.db.submissions := by
  unfold claimWorkflowRunForControl at h
  simp only [bind_ok, pure_ok] at h
  obtain ⟨_, -, h⟩ := h
  obtain ⟨db, hclaim, rfl⟩ := Option.map_eq_some_iff.1 h
  have hrows := claimRun_rows hclaim
  exact ⟨hrows.requests, hrows.submissions⟩

theorem expireTimedOutDecision_protected (host : TimeoutHost) (s : HumanDecisionStore) :
    Protected s.db (host.expireTimedOutDecision s).1.db := by
  rcases host.expireTimedOutDecision_cases s with ⟨candidate, claimed, -, hclaimed, heq⟩ | ⟨-, heq⟩
  · obtain ⟨hrequests, hsubmissions⟩ := claimWorkflowRunForControl_same hclaimed
    rw [heq]
    refine Protected.behind ?_ hrequests hsubmissions
    unfold expireClaimed
    split
    · next resolved hresolved => exact resolveCandidate_protected hresolved
    · dsimp only
      split
      · next released hreleased =>
          simp only [releaseClaim, bind_ok, pure_ok] at hreleased
          obtain ⟨_, -, rfl⟩ := hreleased
          obtain ⟨-, -, -, -, hparked⟩ := parkWorkflowRun_leases host.sha256 claimed.db
            candidate.request.runId host.clock.claimToken host.clock.releasedAt
          exact .of_same hparked (parkWorkflowRun_submissions _ _ _ _ _)
      · exact .of_same rfl rfl
  · rw [heq]
    exact .of_same rfl rfl

end TimeoutHost

/-! ## Answers -/

/-- An answer that is taken. -/
def CommandResult.IsTaken (result : CommandResult) : Prop :=
  result.outcome = .accepted ∨ result.outcome = .adopted

/-- What an answer does that does not throw: it is taken, or nothing comes of it. -/
structure AnswerEnded (s s' : HumanDecisionStore) (taken : Prop) : Prop where
  protects : Protected s.db s'.db
  refused : ¬taken → s'.db.resolutions = s.db.resolutions ∧ s'.db.submissions = s.db.submissions

section

variable {sha256 : String → String} {dates : HostDates} {normalize : Json → Except String Json}
  {s s' : HumanDecisionStore} {taken : Prop}

theorem AnswerEnded.same (s : HumanDecisionStore) (taken : Prop) : AnswerEnded s s taken :=
  ⟨.of_same rfl rfl, fun _ => ⟨rfl, rfl⟩⟩

theorem AnswerEnded.of_taken (hprotects : Protected s.db s'.db) (htaken : taken) :
    AnswerEnded s s' taken :=
  ⟨hprotects, fun hnot => absurd htaken hnot⟩

theorem outcomeOf_taken (answer : SubmissionAnswer) (revision : Option Int) (receipt : Option Json) :
    CommandResult.IsTaken { outcome := outcomeOf answer, revision, receipt } := by
  rw [CommandResult.IsTaken, outcomeOf]
  cases answer.adopted
  · exact .inl rfl
  · exact .inr rfl

theorem submitAccepted_run {options : InteractionOptions} {now : Int} {answer : SubmissionAnswer}
    (h : submitAccepted sha256 options now s = .ok answer s') : Protected s.db s'.db := by
  rw [submitAccepted, write_run, map_ok] at h
  obtain ⟨⟨db, answer⟩, hsubmitted, heq⟩ := h
  obtain ⟨rfl, -⟩ := Prod.mk.inj heq
  exact submitInteraction_protected hsubmitted

theorem answerCheckpoint_answered {command : ClientRequest} {now : Int} {result : CommandResult}
    (h : answerCheckpoint sha256 command now s = .ok result s') :
    AnswerEnded s s' result.IsTaken := by
  simp only [answerCheckpoint, bind_run, check_run, get_run] at h
  obtain ⟨_, _, ⟨-, rfl⟩, requestId, _, ⟨-, rfl⟩, _, _, ⟨rfl, rfl⟩, h⟩ := h
  cases hinteraction : addressedRequest s.db requestId command with
  | none =>
      rw [hinteraction] at h
      obtain ⟨rfl, rfl⟩ := pure_run.1 h
      exact .same _ _
  | some interaction =>
      rw [hinteraction] at h
      dsimp only at h
      split at h
      · obtain ⟨rfl, rfl⟩ := pure_run.1 h
        exact .same _ _
      split at h
      · obtain ⟨rfl, rfl⟩ := pure_run.1 h
        exact .same _ _
      split at h
      · obtain ⟨rfl, rfl⟩ := pure_run.1 h
        exact .same _ _
      · simp only [bind_run, check_run, pure_run] at h
        obtain ⟨_, _, ⟨-, rfl⟩, _, _, ⟨-, rfl⟩, answer, _, hsubmitted, rfl, rfl⟩ := h
        exact .of_taken (submitAccepted_run hsubmitted) (outcomeOf_taken _ _ _)

theorem acceptDecisionAnswer_answered {answer : DecisionAnswer} {clock : SubmissionClock}
    {result : CommandResult}
    (h : acceptDecisionAnswer sha256 dates normalize answer clock s = .ok result s') :
    AnswerEnded s s' result.IsTaken := by
  simp only [acceptDecisionAnswer, bind_run, write_run] at h
  obtain ⟨⟨status, decision⟩, accepted, haccepted, h⟩ := h
  obtain ⟨hrequests, hsubmissions⟩ := accept_frame haccepted
  dsimp only at h
  split at h
  · next hconflict =>
      obtain ⟨rfl, rfl⟩ := pure_run.1 h
      subst hconflict
      refine ⟨.of_same hrequests hsubmissions, fun _ => ⟨?_, hsubmissions⟩⟩
      rw [accept_conflict haccepted]
  · simp only [bind_run, pure_run] at h
    obtain ⟨_, _, hsubmitted, rfl, rfl⟩ := h
    refine .of_taken ((submitAccepted_run hsubmitted).behind hrequests hsubmissions) ?_
    rw [CommandResult.IsTaken]
    dsimp only
    split
    · exact .inr rfl
    · exact .inl rfl

theorem answerDecision_answered {command : ClientRequest} {clock : SubmissionClock}
    {result : CommandResult}
    (h : answerDecision sha256 dates normalize command clock s = .ok result s') :
    AnswerEnded s s' result.IsTaken := by
  simp only [answerDecision, bind_run, check_run, get_run] at h
  obtain ⟨_, _, ⟨-, rfl⟩, requestId, _, ⟨-, rfl⟩, _, _, ⟨rfl, rfl⟩, h⟩ := h
  cases hinteraction : (addressedRequest s.db requestId command).filter fun interaction =>
      interaction.kind = .decision with
  | none =>
      rw [hinteraction] at h
      obtain ⟨rfl, rfl⟩ := pure_run.1 h
      exact .same _ _
  | some interaction =>
      rw [hinteraction] at h
      dsimp only at h
      split at h
      · obtain ⟨rfl, rfl⟩ := pure_run.1 h
        exact .same _ _
      · simp only [bind_run, check_run] at h
        obtain ⟨_, _, ⟨-, rfl⟩, _, _, ⟨-, rfl⟩, _, _, ⟨-, rfl⟩, h⟩ := h
        exact acceptDecisionAnswer_answered h

/-- A request that a command names, and that is of the kind it asks for. -/
theorem addressedRequest_get {db : Db} {requestId : String} {command : ClientRequest}
    {interaction : RequestRow} (h : addressedRequest db requestId command = some interaction) :
    db.requests.get? requestId = some interaction :=
  (Option.filter_eq_some_iff.1 h).1

theorem submitCandidate_answered {command : ClientRequest} {timedOut : Bool} {now : Int}
    {result : CommandResult} (h : submitCandidate sha256 command timedOut now s = .ok result s') :
    AnswerEnded s s' result.IsTaken := by
  simp only [submitCandidate, bind_run, check_run, get_run] at h
  obtain ⟨_, _, ⟨-, rfl⟩, requestId, _, ⟨-, rfl⟩, _, _, ⟨rfl, rfl⟩, h⟩ := h
  cases hinteraction : addressedRequest s.db requestId command with
  | none =>
      rw [hinteraction] at h
      obtain ⟨rfl, rfl⟩ := pure_run.1 h
      exact .same _ _
  | some interaction =>
      rw [hinteraction] at h
      dsimp only at h
      split at h
      · obtain ⟨rfl, rfl⟩ := pure_run.1 h
        exact .same _ _
      · next hkind =>
          split at h
          · obtain ⟨rfl, rfl⟩ := pure_run.1 h
            exact .same _ _
          split at h
          · obtain ⟨rfl, rfl⟩ := pure_run.1 h
            exact .same _ _
          simp only [bind_run, check_run] at h
          obtain ⟨submissionId, _, ⟨-, rfl⟩, expectedRevision, _, ⟨-, rfl⟩, h⟩ := h
          revert h
          generalize hbegun : beginInteractionValidation sha256 s.db now _ = begun
          intro h
          cases begun with
          | ok began =>
              simp only [bind_run, pure_run] at h
              obtain ⟨_, _, hset, rfl, rfl⟩ := h
              cases hset
              refine .of_taken ?_ (outcomeOf_taken _ _ _)
              refine beginInteractionValidation_protected (addressedRequest_get hinteraction) ?_
                hbegun
              rw [not_not.1 hkind, candidateKind]
              split <;> decide
          | error message =>
              dsimp only at h
              split at h
              · obtain ⟨rfl, rfl⟩ := pure_run.1 h
                exact .same _ _
              · cases h

theorem answerFromChannel_answered {message : ChannelAnswer} {clock : SubmissionClock}
    {result : Option CommandResult}
    (h : answerFromChannel sha256 dates normalize message clock s = .ok result s') :
    AnswerEnded s s' (∃ taken, result = some taken ∧ taken.IsTaken) := by
  simp only [answerFromChannel, bind_run, check_run, get_run] at h
  obtain ⟨_, _, ⟨-, rfl⟩, _, _, ⟨rfl, rfl⟩, h⟩ := h
  revert h
  generalize (listPendingDecisionInteractions s.db).find? _ = found
  intro h
  cases found with
  | none =>
      obtain ⟨rfl, rfl⟩ := pure_run.1 h
      exact .same _ _
  | some found =>
      simp only [bind_run, check_run, transaction_run, pure_run] at h
      obtain ⟨_, _, ⟨-, rfl⟩, _, _, ⟨-, rfl⟩, answered, _, haccepted, rfl, rfl⟩ := h
      have hanswered := acceptDecisionAnswer_answered haccepted
      exact ⟨hanswered.protects, fun hnot => hanswered.refused fun htaken =>
        hnot ⟨answered, rfl, htaken⟩⟩

/-! ## What is refused -/

theorem submitCandidate_atomic (command : ClientRequest) (timedOut : Bool) (now : Int) :
    Atomic (submitCandidate sha256 command timedOut now) := by
  unfold submitCandidate
  refine (reads_check _).bind fun _ => (reads_check _).bind fun requestId => reads_get.bind fun s => ?_
  cases addressedRequest s.db requestId command with
  | none => exact (reads_pure _).atomic
  | some interaction =>
      dsimp only
      split
      · exact (reads_pure _).atomic
      split
      · exact (reads_pure _).atomic
      split
      · exact (reads_pure _).atomic
      refine (reads_check _).bind fun submissionId => (reads_check _).bind fun expectedRevision => ?_
      generalize beginInteractionValidation sha256 s.db now _ = begun
      cases begun with
      | ok began => exact (atomic_set _).bind_pure _
      | error message =>
          dsimp only
          split
          · exact (reads_pure _).atomic
          · exact (reads_throw _).atomic

theorem answerFromChannel_atomic (message : ChannelAnswer) (clock : SubmissionClock) :
    Atomic (answerFromChannel sha256 dates normalize message clock) := by
  unfold answerFromChannel
  refine (reads_check _).bind fun _ => reads_get.bind fun s => ?_
  generalize (listPendingDecisionInteractions s.db).find? _ = found
  cases found with
  | none => exact (reads_pure _).atomic
  | some found =>
      refine (reads_check _).bind fun _ => (reads_check _).bind fun _ => ?_
      exact (atomic_transaction _).bind_pure _

/-- An answer that throws leaves nothing behind. -/
theorem serveAnswer_atomic (answer : InteractionAnswer) :
    Atomic (serveAnswer sha256 dates normalize answer) := by
  cases answer with
  | candidate command timedOut now => exact (submitCandidate_atomic command timedOut now).map _
  | checkpoint command fault now => exact (atomic_transaction _).map _
  | decision command fault clock => exact (atomic_transaction _).map _
  | channel message clock => exact answerFromChannel_atomic message clock

/-- A command that is run is its operation. -/
theorem executeCommand_run {fault : Option String} {operation : Interaction CommandResult}
    {result : CommandResult} (h : executeCommand fault operation s = .ok result s') :
    operation s = .ok result s' := by
  simp only [executeCommand, transaction_run, bind_run] at h
  obtain ⟨_, _, hrun, h⟩ := h
  cases fault with
  | none =>
      obtain ⟨rfl, rfl⟩ := pure_run.1 h
      exact hrun
  | some message => cases h

theorem serveAnswer_answered {answer : InteractionAnswer} {result : Option CommandResult}
    (h : serveAnswer sha256 dates normalize answer s = .ok result s') :
    AnswerEnded s s' (∃ taken, result = some taken ∧ taken.IsTaken) := by
  have hmap : ∀ {operation : Interaction CommandResult},
      (∀ result s', operation s = .ok result s' → AnswerEnded s s' result.IsTaken) →
      (some <$> operation) s = .ok result s' →
        AnswerEnded s s' (∃ taken, result = some taken ∧ taken.IsTaken) := by
    intro operation hoperation hrun
    have hbind : (operation >>= fun result => pure (some result)) s = .ok result s' := hrun
    simp only [bind_run, pure_run] at hbind
    obtain ⟨answered, _, hran, rfl, rfl⟩ := hbind
    have hanswered := hoperation _ _ hran
    exact ⟨hanswered.protects, fun hnot => hanswered.refused fun htaken =>
      hnot ⟨answered, rfl, htaken⟩⟩
  cases answer with
  | candidate command timedOut now => exact hmap (fun _ _ => submitCandidate_answered) h
  | checkpoint command fault now =>
      exact hmap (fun _ _ hrun => answerCheckpoint_answered (executeCommand_run hrun)) h
  | decision command fault clock =>
      exact hmap (fun _ _ hrun => answerDecision_answered (executeCommand_run hrun)) h
  | channel message clock => exact answerFromChannel_answered h

end

/-! ## Runs -/

/-- How an answer ended, if it was taken. -/
def IsTaken : EStateM.Result String HumanDecisionStore (Option CommandResult) → Prop
  | .ok result _ => ∃ taken, result = some taken ∧ taken.IsTaken
  | .error _ _ => False

section

variable {sha256 : String → String} {dates : HostDates} {normalize : Json → Except String Json}
  {s s' : HumanDecisionStore}

theorem onDb_ok {change : Except String Db} (h : onDb s change = .ok s') :
    change = .ok s'.db := by
  rw [onDb, map_ok] at h
  obtain ⟨db, hchange, rfl⟩ := h
  exact hchange

theorem interact_protected {action : InteractionAction} (hplain : CandidatesPlain s.db)
    (h : interact sha256 dates normalize s action = .ok s') : Protected s.db s'.db := by
  cases action with
  | answer answer =>
      cases h
      cases hrun : serveAnswer sha256 dates normalize answer s with
      | ok result t => exact (serveAnswer_answered hrun).protects
      | error message t =>
          obtain rfl := serveAnswer_atomic answer s message t hrun
          exact .of_same rfl rfl
  | ensureRequest options now =>
      obtain ⟨⟨db, request⟩, hmade, hdb⟩ := map_ok.1 (onDb_ok h)
      obtain ⟨hmade, hsubmissions, -⟩ := ensureWorkflowRequest_made hmade
      rw [← hdb]
      exact .of_unsettled (fun _ => hmade.unsettled) fun _ _ hsubmission _ => hsubmissions ▸ hsubmission
  | createDecision request =>
      obtain ⟨hrequests, hsubmissions⟩ := createRequest_frame h
      exact .of_same hrequests hsubmissions
  | finishValidation requestId submissionId accepted receipt now =>
      obtain ⟨⟨db, answer⟩, hfinished, hdb⟩ := map_ok.1 (onDb_ok h)
      rw [← hdb]
      exact finishInteractionValidation_protected hplain hfinished
  | resumePending runId now =>
      obtain ⟨⟨db, answer⟩, hresumed, hdb⟩ := map_ok.1 (onDb_ok h)
      rw [← hdb]
      exact resumePendingInteraction_protected hresumed
  | expireDecision server hasDefault clock faults =>
      cases h
      exact TimeoutHost.expireTimedOutDecision_protected _ s
  | cancelDecision request reason authority now =>
      obtain ⟨⟨cancelled, adopted⟩, hcancelled, rfl⟩ := map_ok.1 h
      obtain ⟨hrequests, hsubmissions⟩ := cancel_frame hcancelled
      exact .of_same hrequests hsubmissions
  | queue operation =>
      obtain ⟨⟨db, answer⟩, hexecuted, hdb⟩ := map_ok.1 (onDb_ok h)
      rw [← hdb]
      exact execute_protected hexecuted
  | commit runId options transition => exact commitTransition_protected (onDb_ok h)
  | elsewhere change =>
      cases h
      exact .of_same rfl rfl

theorem interactions_plain (sha256 : String → String) (dates : HostDates)
    (normalize : Json → Except String Json) (hplain : CandidatesPlain s.db)
    (actions : List InteractionAction) :
    CandidatesPlain (interactions sha256 dates normalize s actions).db :=
  Trace.served_invariant (fun _ _ _ hplain h => (interact_protected hplain h).plain hplain) hplain
    actions

end

/-- Behind any calls, a request of a decision is settled by a further one only if its decision is
accepted then, with the response of the submission that settles it. An answer that is not taken
leaves neither a resolution nor a submission, and nothing at all if it throws. -/
theorem interactions_verified (sha256 : String → String) (dates : HostDates)
    (normalizeDecisionPresentation : Json → Except String Json) (actions : List InteractionAction) :
    let s := interactions sha256 dates normalizeDecisionPresentation ⟨.empty, .empty, .empty⟩ actions
    (∀ action s', interact sha256 dates normalizeDecisionPresentation s action = .ok s' →
      ∀ requestId request, s'.db.requests.get? requestId = some request → request.kind = .decision →
        ∀ submissionId time, request.status = .settled submissionId time →
          (∃ earlier, s.db.requests.get? requestId = some earlier ∧
            earlier.status = .settled submissionId time) ∨
          DecisionVerified s'.db requestId request submissionId) ∧
    ∀ answer, ¬IsTaken (serveAnswer sha256 dates normalizeDecisionPresentation answer s) →
      (left (serveAnswer sha256 dates normalizeDecisionPresentation answer s)).db.resolutions =
          s.db.resolutions ∧
        (left (serveAnswer sha256 dates normalizeDecisionPresentation answer s)).db.submissions =
          s.db.submissions ∧
        ∀ message s', serveAnswer sha256 dates normalizeDecisionPresentation answer s =
          .error message s' → s' = s := by
  intro s
  have hplain : CandidatesPlain s.db := by
    refine interactions_plain sha256 dates normalizeDecisionPresentation ?_ actions
    intro id submission hsubmission
    cases hsubmission
  refine ⟨fun action s' hact => (interact_protected hplain hact).settled, fun answer hnot => ?_⟩
  cases hrun : serveAnswer sha256 dates normalizeDecisionPresentation answer s with
  | ok result t =>
      rw [hrun] at hnot
      obtain ⟨hresolutions, hsubmissions⟩ := (serveAnswer_answered hrun).refused hnot
      exact ⟨hresolutions, hsubmissions, fun _ _ heq => by cases heq⟩
  | error message t =>
      obtain rfl := serveAnswer_atomic answer s message t hrun
      refine ⟨rfl, rfl, fun _ _ heq => ?_⟩
      cases heq
      rfl

end PiWorkflows
