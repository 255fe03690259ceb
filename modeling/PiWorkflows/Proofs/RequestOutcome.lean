import PiWorkflows.Lib.Contest
import PiWorkflows.Proofs.QueueDependents
import PiWorkflows.Proofs.SameJson

/-!
# A request has one outcome

A request is a contest of `Lib.Contest` between its submissions. It is open while
it is pending, a settled request was won by its accepted submission, and a
cancelled one is called off. Every write to requests and submissions is a step of
every contest, so the two tables agree on the winner whatever the order is in
which validators finish, deadlines expire and runs are cancelled.

A submission is also kept under a key of its request. The second invariant is
about these: a submission belongs to a request that exists, and no request has
two submissions under one key. That is all a repeat needs.
-/

namespace PiWorkflows

open Fallible Contest

/-! ## Requests as contests -/

def RequestStatus.stage : RequestStatus → Stage String RequestStatus
  | .pending => .running
  | .settled submissionId settledAt => .won submissionId (.settled submissionId settledAt)
  | .cancelled => .off .cancelled

def requestStage (request : Option RequestRow) : Stage String RequestStatus :=
  (request.map fun request => request.status.stage).getD .absent

/-- The accepted submissions of a request. -/
def acceptedSubmissions (submissions : Table String SubmissionRow) (requestId : String) :
    Set String :=
  {id | ∃ submission, submissions.get? id = some submission ∧ submission.requestId = requestId ∧
    submission.outcome = .accepted}

def requestContest (db : Db) (requestId : String) : Record String RequestStatus :=
  ⟨requestStage (db.requests.get? requestId), acceptedSubmissions db.submissions requestId⟩

section

variable {db db' : Db} {requestId : String}

theorem requestContest_some {request : RequestRow} (h : db.requests.get? requestId = some request) :
    requestContest db requestId =
      ⟨request.status.stage, acceptedSubmissions db.submissions requestId⟩ := by
  rw [requestContest, h]
  rfl

theorem requestContest_same (hrequests : db'.requests = db.requests)
    (hsubmissions : db'.submissions = db.submissions) :
    requestContest db' requestId = requestContest db requestId := by
  rw [requestContest, hrequests, hsubmissions]
  rfl

end

/-! ## Writes of submissions -/

section

variable {t : Table String SubmissionRow} (requestId : String)

/-- Turning candidates down accepts nobody and takes nothing back. -/
theorem acceptedSubmissions_updateWhere {p : String → SubmissionRow → Bool}
    {f : SubmissionRow → SubmissionRow}
    (hp : ∀ id submission, p id submission = true → submission.outcome = .validating)
    (hf : ∀ submission, (f submission).outcome ≠ .accepted) :
    acceptedSubmissions (t.updateWhere p f) requestId = acceptedSubmissions t requestId := by
  ext id
  unfold acceptedSubmissions
  rw [Set.mem_ofPred_eq, Set.mem_ofPred_eq, Table.get?_updateWhere]
  constructor
  · rintro ⟨submission', hsubmission', hrequest, haccepted⟩
    obtain ⟨submission, hsubmission, rfl⟩ := Option.map_eq_some_iff.1 hsubmission'
    split at hrequest
    · next hchanged =>
        rw [if_pos hchanged] at haccepted
        exact absurd haccepted (hf submission)
    · next hkept =>
        rw [if_neg hkept] at haccepted
        exact ⟨submission, hsubmission, hrequest, haccepted⟩
  · rintro ⟨submission, hsubmission, hrequest, haccepted⟩
    refine ⟨submission, ?_, hrequest, haccepted⟩
    rw [hsubmission, Option.map_some, if_neg]
    intro hchanged
    rw [hp id submission hchanged] at haccepted
    cases haccepted

theorem acceptedSubmissions_insert {t' : Table String SubmissionRow} {id : String}
    {submission : SubmissionRow} (h : t.insert? id submission = some t') :
    acceptedSubmissions t' requestId =
      if submission.requestId = requestId ∧ submission.outcome = .accepted then
        insert id (acceptedSubmissions t requestId)
      else acceptedSubmissions t requestId := by
  obtain ⟨hfree, hget⟩ := Table.get?_of_insert? h
  ext id'
  have hmem : id' ∈ acceptedSubmissions t' requestId ↔
      (id' = id ∧ submission.requestId = requestId ∧ submission.outcome = .accepted) ∨
        id' ∈ acceptedSubmissions t requestId := by
    unfold acceptedSubmissions
    rw [Set.mem_ofPred_eq, Set.mem_ofPred_eq, hget]
    split
    · next heq =>
        subst heq
        rw [hfree]
        simp
    · next hne => simp [hne]
  rw [hmem]
  split
  · next haccepted => simp [haccepted]
  · next hother => simp [hother]

/-- A candidate that was looked at is accepted. -/
theorem acceptedSubmissions_update {id : String} {submission : SubmissionRow}
    {f : SubmissionRow → SubmissionRow} (h : t.get? id = some submission)
    (hrequest : ∀ submission, (f submission).requestId = submission.requestId)
    (hbefore : submission.outcome ≠ .accepted) :
    acceptedSubmissions (t.update id f) requestId =
      if submission.requestId = requestId ∧ (f submission).outcome = .accepted then
        insert id (acceptedSubmissions t requestId)
      else acceptedSubmissions t requestId := by
  ext id'
  have hmem : id' ∈ acceptedSubmissions (t.update id f) requestId ↔
      (id' = id ∧ submission.requestId = requestId ∧ (f submission).outcome = .accepted) ∨
        id' ∈ acceptedSubmissions t requestId := by
    unfold acceptedSubmissions
    rw [Set.mem_ofPred_eq, Set.mem_ofPred_eq, Table.get?_update]
    split
    · next heq =>
        subst heq
        simp [h, hrequest, hbefore]
    · next hne => simp [hne]
  rw [hmem]
  split
  · next haccepted => simp [haccepted]
  · next hother => simp [hother]

end

/-! ## Steps -/

section

variable {db db' : Db} {now : Int} (requestId : String)

/-- One request changes its stage, and the accepted submissions follow. -/
theorem requestContest_at {id : String} {request request' : RequestRow}
    (hrequest : db.requests.get? id = some request)
    (hrequests : ∀ k, db'.requests.get? k = if k = id then some request' else db.requests.get? k)
    (hother : ∀ k, k ≠ id → acceptedSubmissions db'.submissions k =
      acceptedSubmissions db.submissions k)
    (hstep : Step ⟨request.status.stage, acceptedSubmissions db.submissions id⟩
      ⟨request'.status.stage, acceptedSubmissions db'.submissions id⟩) :
    Step (requestContest db requestId) (requestContest db' requestId) := by
  by_cases hid : requestId = id
  · subst hid
    have hrequest' : db'.requests.get? requestId = some request' := by
      rw [hrequests, if_pos rfl]
    rw [requestContest_some hrequest, requestContest_some hrequest']
    exact hstep
  · have hsame : requestContest db' requestId = requestContest db requestId := by
      rw [requestContest, hrequests, if_neg hid, hother requestId hid]
      rfl
    rw [hsame]
    exact .keep _

theorem cancelPendingRequests_step {runId : String} :
    Step (requestContest db requestId)
      (requestContest (cancelPendingRequests db runId now) requestId) := by
  cases hrequest : db.requests.get? requestId with
  | none =>
      have hsame : requestContest (cancelPendingRequests db runId now) requestId =
          requestContest db requestId := by
        unfold requestContest cancelPendingRequests
        dsimp only
        rw [Table.get?_updateWhere, hrequest]
        rfl
      rw [hsame]
      exact .keep _
  | some request =>
      have hrequest' : (cancelPendingRequests db runId now).requests.get? requestId =
          some (if request.runId = runId ∧ request.status = .pending then cancelRequest now request
            else request) := by
        unfold cancelPendingRequests
        dsimp only
        rw [Table.get?_updateWhere, hrequest, Option.map_some]
        simp only [decide_eq_true_eq]
      rw [requestContest_some hrequest, requestContest_some hrequest']
      split
      · next hpending =>
          rw [hpending.2]
          exact .callOff _ _
      · exact .keep _

theorem rejectValidating_same {isRejected : String → Bool} {error : String} :
    requestContest (rejectValidating db isRejected error) requestId = requestContest db requestId := by
  have haccepted : acceptedSubmissions (rejectValidating db isRejected error).submissions requestId =
      acceptedSubmissions db.submissions requestId := by
    refine acceptedSubmissions_updateWhere requestId ?_ ?_
    · intro id submission hrejected
      exact (of_decide_eq_true hrejected).1
    · exact fun _ => nofun
  rw [requestContest, haccepted]
  rfl

theorem expireRequest_step {id error : String} {request : RequestRow}
    (hrequest : db.requests.get? id = some request) (hpending : request.status = .pending) :
    Step (requestContest db requestId) (requestContest (expireRequest db id error now) requestId) := by
  unfold expireRequest
  rw [rejectValidating_same]
  refine requestContest_at requestId hrequest (Table.get?_update_of_some hrequest _)
    (fun _ _ => rfl) ?_
  rw [hpending]
  exact .callOff _ _

theorem cancelOpenRows_step {runId effectError submissionError : String} :
    Step (requestContest db requestId)
      (requestContest (cancelOpenRows db runId effectError submissionError now) requestId) := by
  have hrejected : requestContest (rejectValidating (cancelRunEffects db runId now effectError)
      (isRequestOf (cancelRunEffects db runId now effectError) runId) submissionError) requestId =
      requestContest db requestId :=
    (rejectValidating_same requestId).trans (requestContest_same rfl rfl)
  rw [← hrejected]
  exact cancelPendingRequests_step requestId

theorem execute_requestStep {sha256 : String → String} {operation : QueueOperation}
    {answer : QueueAnswer} (h : execute sha256 db operation = .ok (db', answer)) :
    Step (requestContest db requestId) (requestContest db' requestId) := by
  cases execute_dependents h with
  | same hrows =>
      rw [requestContest_same hrows.requests hrows.submissions]
      exact .keep _
  | settled runId effectType now hrows =>
      rw [requestContest_same hrows.requests hrows.submissions]
      exact .keep _
  | expired id error now request hrequest hpending hrows =>
      rw [requestContest_same hrows.requests hrows.submissions]
      exact expireRequest_step requestId hrequest hpending
  | failed runId now hrows =>
      rw [requestContest_same hrows.requests hrows.submissions]
      exact cancelPendingRequests_step requestId
  | cancelled runId effectError submissionError now hrows =>
      rw [requestContest_same hrows.requests hrows.submissions]
      exact cancelOpenRows_step requestId

theorem requestMade_step (h : RequestMade db db') (hsubmissions : db'.submissions = db.submissions) :
    Step (requestContest db requestId) (requestContest db' requestId) := by
  cases h with
  | none hsame =>
      rw [requestContest_same hsame hsubmissions]
      exact .keep _
  | made id request hpending hinsert =>
      obtain ⟨hfree, hget⟩ := Table.get?_of_insert? hinsert
      rw [requestContest, requestContest, hget, hsubmissions]
      split
      · next heq =>
          rw [heq, hfree, requestStage, requestStage, Option.map_some, hpending]
          exact .announce _
      · exact .keep _

theorem consumeRequest_same {runId attemptId : String} :
    requestContest (consumeRequest db now runId attemptId) requestId =
      requestContest db requestId := by
  have hstage : requestStage ((consumeRequest db now runId attemptId).requests.get? requestId) =
      requestStage (db.requests.get? requestId) := by
    unfold consumeRequest
    dsimp only
    rw [Table.get?_updateWhere]
    cases db.requests.get? requestId with
    | none => rfl
    | some request =>
        rw [Option.map_some]
        split <;> rfl
  rw [requestContest, hstage]
  rfl

theorem commitTransition_requestStep {sha256 : String → String} {dates : HostDates} {runId : String}
    {options : CommitOptions} {transition : WorkflowTransition}
    (h : commitTransition sha256 dates db runId options transition = .ok db') :
    Step (requestContest db requestId) (requestContest db' requestId) := by
  obtain ⟨prepared, persisted, consumed, hprepared, hpersisted, hconsumed, hsettled⟩ :=
    (commitTransition_change h).writes
  have hpersisted : requestContest persisted requestId = requestContest prepared requestId := by
    rcases hpersisted with hsame | ⟨state, now, revision, hrows⟩
    · exact requestContest_same hsame.requests hsame.submissions
    · exact requestContest_same (hrows.requests.trans enqueueRunSettlementEffect_frame.1)
        (hrows.submissions.trans enqueueRunSettlementEffect_frame.2.1)
  have hconsumed : requestContest consumed requestId = requestContest persisted requestId := by
    rcases hconsumed with hsame | ⟨now, runId, attemptId, hrows⟩
    · exact requestContest_same hsame.requests hsame.submissions
    · rw [requestContest_same hrows.requests hrows.submissions, consumeRequest_same]
  have hsettled : requestContest db' requestId = requestContest consumed requestId := by
    rcases hsettled with hsame | ⟨runId, now, effectType, hrows⟩
    · exact requestContest_same hsame.requests hsame.submissions
    · exact requestContest_same hrows.requests hrows.submissions
  rw [hsettled, hconsumed, hpersisted]
  exact requestMade_step requestId hprepared.requests hprepared.submissions

/-- What a submission that is new does: it is recorded, and it wins if it settles. -/
theorem recordWorkflowSubmission_ok {sha256 : String → String} {options : SubmissionOptions}
    {answer : SubmissionAnswer}
    (h : recordWorkflowSubmission sha256 db now options = .ok (db', answer)) :
    db' = db ∨ ∃ request submission submissions,
      db.requests.get? options.requestId = some request ∧ request.status = .pending ∧
      submissionForKey db options.requestId options.idempotencyKey = none ∧
      submission.requestId = options.requestId ∧
      submission.idempotencyKey = options.idempotencyKey ∧
      submission.outcome = options.outcome ∧
      db.submissions.insert? options.submissionId submission = some submissions ∧
      db' = { db with
        submissions := submissions
        requests :=
          if options.settle then
            db.requests.update options.requestId (settleRequest now options.submissionId)
          else db.requests } := by
  unfold recordWorkflowSubmission at h
  simp only [bind_ok, orThrow_ok] at h
  obtain ⟨request, hrequest, h⟩ := h
  split at h
  · simp only [bind_ok, pure_ok, Prod.mk.injEq] at h
    obtain ⟨_, -, rfl, -⟩ := h
    exact .inl rfl
  · next hfree =>
      simp only [bind_ok, orThrow_ok, pure_ok, Prod.mk.injEq, checkSubmission, require_ok] at h
      obtain ⟨_, ⟨_, ⟨-, hpending⟩, -⟩, submissions, hinsert, rfl, -⟩ := h
      exact .inr ⟨request, _, submissions, hrequest, hpending, hfree, rfl, rfl, rfl, hinsert, rfl⟩

/-- Only a submission that settles its request may be accepted. -/
theorem recordWorkflowSubmission_step {sha256 : String → String} {options : SubmissionOptions}
    {answer : SubmissionAnswer} (hsettle : options.outcome = .accepted ↔ options.settle = true)
    (h : recordWorkflowSubmission sha256 db now options = .ok (db', answer)) :
    Step (requestContest db requestId) (requestContest db' requestId) := by
  rcases recordWorkflowSubmission_ok h with rfl | ⟨request, submission, submissions, hrequest,
    hpending, -, hof, -, houtcome, hinsert, rfl⟩
  · exact .keep _
  · have haccepted := fun k => acceptedSubmissions_insert k hinsert
    rw [hof, houtcome] at haccepted
    cases hwins : options.settle with
    | true =>
        refine requestContest_at requestId hrequest (Table.get?_update_of_some hrequest _) ?_ ?_
        · intro k hk
          dsimp only
          rw [haccepted, if_neg fun h => hk h.1.symm]
        · dsimp only
          rw [haccepted, if_pos ⟨rfl, hsettle.2 hwins⟩, hpending]
          exact .win _ _ _
    | false =>
        have hnot : options.outcome ≠ .accepted := by
          intro haccepted
          rw [hsettle.1 haccepted] at hwins
          cases hwins
        have hsame : requestContest
            { db with submissions := submissions, requests := db.requests } requestId =
            requestContest db requestId := by
          rw [requestContest, haccepted, if_neg fun h => hnot h.2]
          rfl
        rw [if_neg Bool.false_ne_true, hsame]
        exact .keep _

theorem finishInteractionValidation_ok {id submissionId : String} {accepted : Bool} {receipt : Json}
    {answer : SubmissionRow}
    (h : finishInteractionValidation db now id submissionId accepted receipt = .ok (db', answer)) :
    db' = db ∨ ∃ request submission,
      db.submissions.get? submissionId = some submission ∧ submission.requestId = id ∧
      submission.outcome = .validating ∧ db.requests.get? id = some request ∧
      (accepted = true → request.status = .pending) ∧
      db' = { db with
        submissions := db.submissions.update submissionId (finishSubmission accepted receipt)
        requests :=
          if accepted then db.requests.update id (settleRequest now submissionId)
          else db.requests } := by
  unfold finishInteractionValidation at h
  simp only [bind_ok, orThrow_ok] at h
  obtain ⟨submission, hfound, h⟩ := h
  obtain ⟨hsubmission, hof⟩ := Option.filter_eq_some_iff.1 hfound
  by_cases hdone : submission.outcome =
      if accepted then SubmissionOutcome.accepted else SubmissionOutcome.rejected
  · rw [if_pos hdone] at h
    cases h
    exact .inl rfl
  · rw [if_neg hdone] at h
    simp only [bind_ok, require_ok, orThrow_ok, onlyIf_ok, pure_ok, Prod.mk.injEq] at h
    obtain ⟨_, hvalidating, request, hrequest, _, hpending, rfl, -⟩ := h
    refine .inr ⟨request, submission, hsubmission, of_decide_eq_true hof, hvalidating, hrequest,
      hpending, ?_⟩
    cases accepted <;> rfl

theorem finishInteractionValidation_step {id submissionId : String} {accepted : Bool}
    {receipt : Json} {answer : SubmissionRow}
    (h : finishInteractionValidation db now id submissionId accepted receipt = .ok (db', answer)) :
    Step (requestContest db requestId) (requestContest db' requestId) := by
  rcases finishInteractionValidation_ok h with rfl | ⟨request, submission, hsubmission, hof,
    hvalidating, hrequest, hpending, rfl⟩
  · exact .keep _
  · have hnot : submission.outcome ≠ .accepted := by
      rw [hvalidating]
      exact nofun
    have hfinished : ∀ k, acceptedSubmissions
        (db.submissions.update submissionId (finishSubmission accepted receipt)) k =
        if submission.requestId = k ∧ (finishSubmission accepted receipt submission).outcome =
          .accepted then insert submissionId (acceptedSubmissions db.submissions k)
        else acceptedSubmissions db.submissions k :=
      fun k => acceptedSubmissions_update k hsubmission (fun _ => rfl) hnot
    cases accepted with
    | true =>
        refine requestContest_at requestId hrequest (Table.get?_update_of_some hrequest _) ?_ ?_
        · intro k hk
          dsimp only
          rw [hfinished, if_neg fun h => hk (h.1.symm.trans hof)]
        · dsimp only
          rw [hfinished, if_pos ⟨hof, rfl⟩, hpending rfl]
          exact .win _ _ _
    | false =>
        have hsame : acceptedSubmissions
            (db.submissions.update submissionId (finishSubmission false receipt)) requestId =
            acceptedSubmissions db.submissions requestId := by
          rw [hfinished, if_neg fun h => by cases h.2]
        rw [requestContest, requestContest]
        dsimp only
        rw [hsame, if_neg Bool.false_ne_true]
        exact .keep _

theorem resumePendingInteraction_step {runId : String} {answer : RequestRow}
    (h : resumePendingInteraction db now runId = .ok (db', answer)) :
    Step (requestContest db requestId) (requestContest db' requestId) := by
  unfold resumePendingInteraction at h
  simp only [bind_ok, orThrow_ok] at h
  obtain ⟨⟨id, request⟩, hfound, h⟩ := h
  obtain ⟨hrequest, -⟩ := Table.find?_some hfound
  dsimp only at h
  split at h
  · cases h
    exact .keep _
  · simp only [pure_ok, Prod.mk.injEq] at h
    obtain ⟨rfl, -⟩ := h
    exact requestContest_at requestId hrequest (Table.get?_update_of_some hrequest _)
      (fun _ _ => rfl) (.keep _)

end

/-! ## Keys of submissions -/

/-- What a submission is called and what it is for. -/
def submissionIdentity (submission : SubmissionRow) : String × String × Json :=
  (submission.requestId, submission.idempotencyKey, submission.payload)

/-- The same submissions, whatever was found about them. -/
def SameSubmissions (t t' : Table String SubmissionRow) : Prop :=
  ∀ id, (t'.get? id).map submissionIdentity = (t.get? id).map submissionIdentity

inductive SubmissionChange (db db' : Db) : Prop
  | same (h : SameSubmissions db.submissions db'.submissions)
  | recorded (id : String) (submission : SubmissionRow)
      (hrequest : db.requests.get? submission.requestId ≠ none)
      (hfree : submissionForKey db submission.requestId submission.idempotencyKey = none)
      (hinsert : db.submissions.insert? id submission = some db'.submissions)

structure SubmissionInv (db : Db) : Prop where
  requested : ∀ id submission, db.submissions.get? id = some submission →
    db.requests.get? submission.requestId ≠ none
  keys : ∀ id id' submission submission', db.submissions.get? id = some submission →
    db.submissions.get? id' = some submission' → submission.requestId = submission'.requestId →
    submission.idempotencyKey = submission'.idempotencyKey → id = id'

section

variable {db db' : Db}

theorem SubmissionChange.of_eq (h : db'.submissions = db.submissions) : SubmissionChange db db' :=
  .same fun _ => by rw [h]

theorem sameSubmissions_updateWhere {t : Table String SubmissionRow}
    {p : String → SubmissionRow → Bool} {f : SubmissionRow → SubmissionRow}
    (hf : ∀ submission, submissionIdentity (f submission) = submissionIdentity submission) :
    SameSubmissions t (t.updateWhere p f) := by
  intro id
  rw [Table.get?_updateWhere, Option.map_map]
  congr 1
  funext submission
  dsimp only [Function.comp]
  split
  · exact hf submission
  · rfl

theorem SameSubmissions.find {t t' : Table String SubmissionRow} (h : SameSubmissions t t')
    {id : String} {submission' : SubmissionRow} (hsubmission : t'.get? id = some submission') :
    ∃ submission, t.get? id = some submission ∧
      submission.requestId = submission'.requestId ∧
      submission.idempotencyKey = submission'.idempotencyKey ∧
      submission.payload = submission'.payload := by
  have hid := h id
  rw [hsubmission, Option.map_some] at hid
  obtain ⟨submission, hbefore, heq⟩ := Option.map_eq_some_iff.1 hid.symm
  simp only [submissionIdentity, Prod.mk.injEq] at heq
  exact ⟨submission, hbefore, heq⟩

theorem SameSubmissions.symm {t t' : Table String SubmissionRow} (h : SameSubmissions t t') :
    SameSubmissions t' t :=
  fun id => (h id).symm

/-- Requests stay, and so do submissions. -/
theorem SubmissionChange.inv (h : SubmissionChange db db')
    (hrequests : ∀ id, db.requests.get? id ≠ none → db'.requests.get? id ≠ none)
    (hinv : SubmissionInv db) : SubmissionInv db' := by
  cases h with
  | same hsame =>
      constructor
      · intro id submission' hsubmission'
        obtain ⟨submission, hsubmission, hof, -⟩ := hsame.find hsubmission'
        exact hof ▸ hrequests _ (hinv.requested id submission hsubmission)
      · intro id id' submission submission' hid hid' hof hkey
        obtain ⟨before, hbefore, hof₁, hkey₁, -⟩ := hsame.find hid
        obtain ⟨before', hbefore', hof₂, hkey₂, -⟩ := hsame.find hid'
        exact hinv.keys id id' before before' hbefore hbefore'
          (hof₁.trans (hof.trans hof₂.symm)) (hkey₁.trans (hkey.trans hkey₂.symm))
  | recorded new row hrequest hfree hinsert =>
      obtain ⟨-, hget⟩ := Table.get?_of_insert? hinsert
      have hnew : ∀ id submission, db.submissions.get? id = some submission →
          ¬ (submission.requestId = row.requestId ∧
            submission.idempotencyKey = row.idempotencyKey) := by
        intro id submission hsubmission
        exact of_decide_eq_false (Table.find?_none.1 hfree id submission hsubmission)
      constructor
      · intro id submission hsubmission
        rw [hget] at hsubmission
        split at hsubmission
        · cases hsubmission
          exact hrequests _ hrequest
        · exact hrequests _ (hinv.requested id submission hsubmission)
      · intro id id' submission submission' hid hid' hof hkey
        rw [hget] at hid hid'
        split at hid
        · next heq =>
            cases hid
            split at hid'
            · next heq' => exact heq.trans heq'.symm
            · exact absurd ⟨hof.symm, hkey.symm⟩ (hnew id' submission' hid')
        · split at hid'
          · cases hid'
            exact absurd ⟨hof, hkey⟩ (hnew id submission hid)
          · exact hinv.keys id id' submission submission' hid hid' hof hkey

/-- A submission is still there after a change. -/
theorem SubmissionChange.kept (h : SubmissionChange db db') {id : String}
    {submission : SubmissionRow} (hsubmission : db.submissions.get? id = some submission) :
    ∃ submission', db'.submissions.get? id = some submission' ∧
      submission'.requestId = submission.requestId ∧
      submission'.idempotencyKey = submission.idempotencyKey ∧
      submission'.payload = submission.payload := by
  cases h with
  | same hsame => exact hsame.symm.find hsubmission
  | recorded new row hrequest hfree hinsert =>
      obtain ⟨hunused, hget⟩ := Table.get?_of_insert? hinsert
      refine ⟨submission, ?_, rfl, rfl, rfl⟩
      rw [hget, if_neg]
      · exact hsubmission
      · rintro rfl
        rw [hunused] at hsubmission
        cases hsubmission

end

/-! ## Runs -/

/-- A call on requests, or of a part of the program that may touch them. -/
inductive RequestAction where
  | ensure (now : Int) (options : RequestOptions)
  | submit (now : Int) (options : InteractionOptions) (accepted : Bool)
  | beginValidation (now : Int) (options : InteractionOptions)
  | finishValidation (now : Int) (requestId submissionId : String) (accepted : Bool)
      (receipt : Json)
  | resume (now : Int) (runId : String)
  | queue (operation : QueueOperation)
  | commit (runId : String) (options : CommitOptions) (transition : WorkflowTransition)
  | elsewhere (write : Db → Db)

def requestAct (sha256 : String → String) (dates : HostDates) (db : Db) :
    RequestAction → Except String Db
  | .ensure now options => (ensureWorkflowRequest db now options).map Prod.fst
  | .submit now options accepted => (submitInteraction sha256 db now options accepted).map Prod.fst
  | .beginValidation now options => (beginInteractionValidation sha256 db now options).map Prod.fst
  | .finishValidation now requestId submissionId accepted receipt =>
      (finishInteractionValidation db now requestId submissionId accepted receipt).map Prod.fst
  | .resume now runId => (resumePendingInteraction db now runId).map Prod.fst
  | .queue operation => (execute sha256 db operation).map Prod.fst
  | .commit runId options transition => commitTransition sha256 dates db runId options transition
  | .elsewhere write =>
      .ok { write db with requests := db.requests, submissions := db.submissions }

/-- Any actions in any order; a call that throws changes nothing. -/
def requestRun (sha256 : String → String) (dates : HostDates) (db : Db)
    (actions : List RequestAction) : Db :=
  Trace.served (requestAct sha256 dates) db actions

section

variable {sha256 : String → String} {dates : HostDates} {db db' : Db}

theorem requestAct_step {action : RequestAction} (requestId : String)
    (h : requestAct sha256 dates db action = .ok db') :
    Step (requestContest db requestId) (requestContest db' requestId) := by
  cases action with
  | ensure now options =>
      simp only [requestAct, map_ok] at h
      obtain ⟨⟨made, request⟩, hmade, rfl⟩ := h
      obtain ⟨hmade, hsubmissions, -⟩ := ensureWorkflowRequest_made hmade
      exact requestMade_step requestId hmade hsubmissions
  | submit now options accepted =>
      simp only [requestAct, map_ok] at h
      obtain ⟨⟨recorded, answer⟩, hrecorded, rfl⟩ := h
      refine recordWorkflowSubmission_step requestId ?_ hrecorded
      cases accepted <;> simp
  | beginValidation now options =>
      simp only [requestAct, map_ok] at h
      obtain ⟨⟨recorded, answer⟩, hrecorded, rfl⟩ := h
      refine recordWorkflowSubmission_step requestId ?_ hrecorded
      simp
  | finishValidation =>
      simp only [requestAct, map_ok] at h
      obtain ⟨⟨finished, answer⟩, hfinished, rfl⟩ := h
      exact finishInteractionValidation_step requestId hfinished
  | resume =>
      simp only [requestAct, map_ok] at h
      obtain ⟨⟨resumed, answer⟩, hresumed, rfl⟩ := h
      exact resumePendingInteraction_step requestId hresumed
  | queue =>
      simp only [requestAct, map_ok] at h
      obtain ⟨⟨executed, answer⟩, hexecuted, rfl⟩ := h
      exact execute_requestStep requestId hexecuted
  | commit => exact commitTransition_requestStep requestId h
  | elsewhere =>
      cases h
      exact .keep _

theorem recordWorkflowSubmission_change {now : Int} {options : SubmissionOptions}
    {answer : SubmissionAnswer}
    (h : recordWorkflowSubmission sha256 db now options = .ok (db', answer)) :
    SubmissionChange db db' := by
  rcases recordWorkflowSubmission_ok h with rfl | ⟨request, submission, submissions, hrequest,
    -, hfree, hof, hkey, -, hinsert, rfl⟩
  · exact .of_eq rfl
  · refine .recorded options.submissionId submission ?_ ?_ hinsert
    · rw [hof, hrequest]
      exact Option.some_ne_none _
    · rw [hof, hkey]
      exact hfree

theorem rejectValidating_sameSubmissions {isRejected : String → Bool} {error : String} :
    SameSubmissions db.submissions (rejectValidating db isRejected error).submissions :=
  sameSubmissions_updateWhere fun _ => rfl

theorem execute_submissions {operation : QueueOperation} {answer : QueueAnswer}
    (h : execute sha256 db operation = .ok (db', answer)) : SubmissionChange db db' := by
  cases execute_dependents h with
  | same hrows => exact .of_eq hrows.submissions
  | settled runId effectType now hrows => exact .of_eq hrows.submissions
  | expired requestId error now request hrequest hpending hrows =>
      refine .same ?_
      rw [hrows.submissions]
      exact rejectValidating_sameSubmissions
  | failed runId now hrows => exact .of_eq hrows.submissions
  | cancelled runId effectError submissionError now hrows =>
      refine .same ?_
      rw [hrows.submissions]
      exact rejectValidating_sameSubmissions

theorem commitTransition_submissions {runId : String} {options : CommitOptions}
    {transition : WorkflowTransition}
    (h : commitTransition sha256 dates db runId options transition = .ok db') :
    SubmissionChange db db' := by
  obtain ⟨prepared, persisted, consumed, hprepared, hpersisted, hconsumed, hsettled⟩ :=
    (commitTransition_change h).writes
  have hpersisted : persisted.submissions = prepared.submissions := by
    rcases hpersisted with hsame | ⟨state, now, revision, hrows⟩
    · exact hsame.submissions
    · exact hrows.submissions.trans enqueueRunSettlementEffect_frame.2.1
  have hconsumed : consumed.submissions = persisted.submissions := by
    rcases hconsumed with hsame | ⟨now, runId, attemptId, hrows⟩
    · exact hsame.submissions
    · exact hrows.submissions
  have hsettled : db'.submissions = consumed.submissions := by
    rcases hsettled with hsame | ⟨runId, now, effectType, hrows⟩
    · exact hsame.submissions
    · exact hrows.submissions
  exact .of_eq (by rw [hsettled, hconsumed, hpersisted, hprepared.submissions])

theorem requestAct_submissions {action : RequestAction}
    (h : requestAct sha256 dates db action = .ok db') : SubmissionChange db db' := by
  cases action with
  | ensure now options =>
      simp only [requestAct, map_ok] at h
      obtain ⟨⟨made, request⟩, hmade, rfl⟩ := h
      exact .of_eq (ensureWorkflowRequest_made hmade).2.1
  | submit now options accepted =>
      simp only [requestAct, map_ok] at h
      obtain ⟨⟨recorded, answer⟩, hrecorded, rfl⟩ := h
      exact recordWorkflowSubmission_change hrecorded
  | beginValidation now options =>
      simp only [requestAct, map_ok] at h
      obtain ⟨⟨recorded, answer⟩, hrecorded, rfl⟩ := h
      exact recordWorkflowSubmission_change hrecorded
  | finishValidation =>
      simp only [requestAct, map_ok] at h
      obtain ⟨⟨finished, answer⟩, hfinished, rfl⟩ := h
      rcases finishInteractionValidation_ok hfinished with rfl | ⟨_, _, -, -, -, -, -, rfl⟩
      · exact .of_eq rfl
      · refine .same fun id => ?_
        dsimp only
        rw [Table.get?_update]
        split
        · rw [Option.map_map]; rfl
        · rfl
  | resume =>
      simp only [requestAct, map_ok] at h
      obtain ⟨⟨resumed, answer⟩, hresumed, rfl⟩ := h
      unfold resumePendingInteraction at hresumed
      simp only [bind_ok] at hresumed
      obtain ⟨pending, -, hresumed⟩ := hresumed
      split at hresumed
      · cases hresumed
        exact .of_eq rfl
      · cases hresumed
        exact .of_eq rfl
  | queue =>
      simp only [requestAct, map_ok] at h
      obtain ⟨⟨executed, answer⟩, hexecuted, rfl⟩ := h
      exact execute_submissions hexecuted
  | commit => exact commitTransition_submissions h
  | elsewhere =>
      cases h
      exact .of_eq rfl

end

/-! ## States of a run -/

/-- Requests and submissions agree on the winner, and keys are used once. -/
structure RequestsInv (db : Db) : Prop where
  sound : ∀ requestId, Sound (requestContest db requestId)
  submissions : SubmissionInv db

/-- What one state says of a request and its submissions still holds in the other. -/
structure RequestsKept (db db' : Db) : Prop where
  stage : ∀ requestId, (requestStage (db.requests.get? requestId)).verdict ≠ none →
    requestStage (db'.requests.get? requestId) = requestStage (db.requests.get? requestId)
  requests : ∀ requestId, db.requests.get? requestId ≠ none → db'.requests.get? requestId ≠ none
  submissions : ∀ id submission, db.submissions.get? id = some submission →
    ∃ submission', db'.submissions.get? id = some submission' ∧
      submission'.requestId = submission.requestId ∧
      submission'.idempotencyKey = submission.idempotencyKey ∧
      submission'.payload = submission.payload

section

variable {sha256 : String → String} {dates : HostDates} {db db' : Db}

theorem requestStage_absent {request : Option RequestRow} :
    requestStage request = .absent ↔ request = none := by
  cases request with
  | none => exact iff_of_true rfl rfl
  | some request =>
      refine iff_of_false ?_ (Option.some_ne_none request)
      rw [requestStage, Option.map_some, Option.getD_some]
      cases request.status <;> exact nofun

theorem requestsInv_empty : RequestsInv .empty := by
  constructor
  · intro requestId
    have hnobody : acceptedSubmissions Db.empty.submissions requestId = ∅ := by
      refine Set.eq_empty_of_forall_notMem ?_
      rintro id ⟨submission, hsubmission, -⟩
      cases hsubmission
    rw [requestContest, hnobody]
    exact sound_absent
  · constructor
    · intro id submission hsubmission
      cases hsubmission
    · intro id id' submission submission' hsubmission
      cases hsubmission

theorem requestAct_requests {action : RequestAction} {requestId : String}
    (h : requestAct sha256 dates db action = .ok db')
    (hrequest : db.requests.get? requestId ≠ none) : db'.requests.get? requestId ≠ none := by
  intro hgone
  refine (requestAct_step requestId h).announced ?_ (requestStage_absent.2 hgone)
  exact fun habsent => hrequest (requestStage_absent.1 habsent)

theorem requestAct_inv {action : RequestAction} (hinv : RequestsInv db)
    (h : requestAct sha256 dates db action = .ok db') : RequestsInv db' := by
  constructor
  · exact fun requestId => (requestAct_step requestId h).sound (hinv.sound requestId)
  · exact (requestAct_submissions h).inv (fun _ => requestAct_requests h) hinv.submissions

theorem requestAct_kept {action : RequestAction} (h : requestAct sha256 dates db action = .ok db') :
    RequestsKept db db' := by
  constructor
  · intro requestId hover
    exact congrArg Record.stage ((requestAct_step requestId h).over_kept hover)
  · exact fun _ => requestAct_requests h
  · exact fun _ _ => (requestAct_submissions h).kept

theorem RequestsKept.refl (db : Db) : RequestsKept db db where
  stage _ _ := rfl
  requests _ := id
  submissions _ submission hsubmission := ⟨submission, hsubmission, rfl, rfl, rfl⟩

theorem RequestsKept.trans {db'' : Db} (h : RequestsKept db db') (h' : RequestsKept db' db'') :
    RequestsKept db db'' := by
  constructor
  · intro requestId hover
    have hstage := h.stage requestId hover
    rw [h'.stage requestId (hstage ▸ hover), hstage]
  · exact fun requestId hrequest => h'.requests requestId (h.requests requestId hrequest)
  · intro id submission hsubmission
    obtain ⟨middle, hmiddle, hof, hkey, hpayload⟩ := h.submissions id submission hsubmission
    obtain ⟨last, hlast, hof', hkey', hpayload'⟩ := h'.submissions id middle hmiddle
    exact ⟨last, hlast, hof'.trans hof, hkey'.trans hkey, hpayload'.trans hpayload⟩

theorem requestRun_inv (hinv : RequestsInv db) (actions : List RequestAction) :
    RequestsInv (requestRun sha256 dates db actions) :=
  Trace.served_invariant (fun _ _ _ hinv h => requestAct_inv hinv h) hinv actions

theorem requestRun_kept (actions : List RequestAction) :
    RequestsKept db (requestRun sha256 dates db actions) :=
  Trace.served_related RequestsKept.refl RequestsKept.trans (fun _ _ _ (_ : True) _ => trivial)
    (fun _ _ _ _ h => requestAct_kept h) trivial actions

end

/-! ## Repeats -/

section

variable {sha256 : String → String} {db : Db} {now : Int} {options : SubmissionOptions}
  {request : RequestRow} {submissionId : String} {submission : SubmissionRow}

/-- The key of a submission finds it. -/
theorem SubmissionInv.forKey (hinv : SubmissionInv db)
    (hsubmission : db.submissions.get? submissionId = some submission) :
    submissionForKey db submission.requestId submission.idempotencyKey =
      some (submissionId, submission) := by
  refine Table.find?_of_unique hsubmission (decide_eq_true ⟨rfl, rfl⟩) ?_
  intro id other hother hsame
  obtain ⟨hof, hkey⟩ := of_decide_eq_true hsame
  exact hinv.keys id submissionId other submission hother hsubmission hof hkey

theorem recordWorkflowSubmission_repeat
    (hrequest : db.requests.get? options.requestId = some request)
    (hfound : submissionForKey db options.requestId options.idempotencyKey =
      some (submissionId, submission)) :
    recordWorkflowSubmission sha256 db now options = (do
      require (jsonHash sha256 submission.payload = jsonHash sha256 options.payload)
        "Interactive submission idempotency key conflicts"
      pure (db, {
        interaction := request, submissionId := submissionId, adopted := true
        receipt :=
          submission.receipt.getD (defaultReceipt options.requestId submissionId) })) := by
  unfold recordWorkflowSubmission
  rw [hrequest, hfound]
  rfl

/-- The verdict on a request is its status. -/
theorem RequestStatus.stage_verdict {status : RequestStatus} (h : status ≠ .pending) :
    status.stage.verdict = some status := by
  cases status with
  | pending => exact (h rfl).elim
  | settled | cancelled => rfl

theorem RequestStatus.stage_winner (status : RequestStatus) :
    status.stage.winner = status.acceptedSubmissionId := by
  cases status <;> rfl

theorem RequestStatus.of_verdict {status : RequestStatus} {verdict : RequestStatus}
    (h : status.stage.verdict = some verdict) : status = verdict := by
  cases status with
  | pending => cases h
  | settled | cancelled => exact Option.some.inj h

end

/-- In every state of a run: a request stays, and once it left `pending` its status is never
changed; the submission its status names is the one that is accepted; and a key that was used for
a request is answered by what is stored under it, or turned down. -/
theorem requestRun_settlesOnce {sha256 : String → String} (hsha256 : Function.Injective sha256)
    (dates : HostDates) (actions later : List RequestAction) (requestId : String)
    (request : RequestRow)
    (hrequest :
      (requestRun sha256 dates .empty actions).requests.get? requestId = some request) :
    (∃ request',
      (requestRun sha256 dates (requestRun sha256 dates .empty actions) later).requests.get?
        requestId = some request' ∧
      (request.status ≠ .pending → request'.status = request.status)) ∧
    (∀ submissionId, request.status.acceptedSubmissionId = some submissionId ↔
      ∃ submission,
        (requestRun sha256 dates .empty actions).submissions.get? submissionId =
          some submission ∧
        submission.requestId = requestId ∧ submission.outcome = .accepted) ∧
    (∀ submissionId submission,
      (requestRun sha256 dates .empty actions).submissions.get? submissionId = some submission →
      submission.requestId = requestId →
      ∃ request' submission',
        (requestRun sha256 dates (requestRun sha256 dates .empty actions) later).requests.get?
          requestId = some request' ∧
        (requestRun sha256 dates (requestRun sha256 dates .empty actions) later).submissions.get?
          submissionId = some submission' ∧
        ∀ now options, options.requestId = requestId →
          options.idempotencyKey = submission.idempotencyKey →
          recordWorkflowSubmission sha256
              (requestRun sha256 dates (requestRun sha256 dates .empty actions) later) now
              options =
            if canonicalJson options.payload = canonicalJson submission.payload then
              .ok (requestRun sha256 dates (requestRun sha256 dates .empty actions) later, {
                interaction := request', submissionId := submissionId, adopted := true
                receipt := submission'.receipt.getD (defaultReceipt requestId submissionId) })
            else .error "Interactive submission idempotency key conflicts") := by
  have hinv : RequestsInv (requestRun sha256 dates .empty actions) :=
    requestRun_inv requestsInv_empty actions
  generalize requestRun sha256 dates .empty actions = db at hrequest hinv
  have hinv' : RequestsInv (requestRun sha256 dates db later) := requestRun_inv hinv later
  have hkept : RequestsKept db (requestRun sha256 dates db later) := requestRun_kept later
  generalize requestRun sha256 dates db later = db' at hinv' hkept
  obtain ⟨request', hrequest'⟩ : ∃ request', db'.requests.get? requestId = some request' :=
    Option.ne_none_iff_exists'.1 (hkept.requests requestId (by simp [hrequest]))
  refine ⟨⟨request', hrequest', ?_⟩, ?_, ?_⟩
  · intro hleft
    have hstage := hkept.stage requestId
    rw [hrequest, hrequest'] at hstage
    have hverdict : (requestStage (some request)).verdict = some request.status :=
      RequestStatus.stage_verdict hleft
    refine RequestStatus.of_verdict ?_
    rw [← hverdict, ← hstage (by simp [hverdict])]
    rfl
  · intro submissionId
    have hsound := hinv.sound requestId submissionId
    rw [requestContest_some hrequest, RequestStatus.stage_winner] at hsound
    exact hsound.symm
  · rintro submissionId submission hsubmission rfl
    obtain ⟨submission', hsubmission', hof, hkey, hpayload⟩ :=
      hkept.submissions submissionId submission hsubmission
    refine ⟨request', submission', hrequest', hsubmission', ?_⟩
    intro now options hoptions hsame
    have hfound := hinv'.submissions.forKey hsubmission'
    rw [hof, hkey, ← hoptions, ← hsame] at hfound
    rw [recordWorkflowSubmission_repeat (hoptions ▸ hrequest') hfound, hpayload]
    simp only [jsonHash, hsha256.eq_iff]
    split
    · next hequal => 
        rw [require, if_pos hequal.symm, hoptions]
        rfl
    · next hdiffers =>
        rw [require, if_neg fun h => hdiffers h.symm]
        rfl

/-- A candidate is looked at and accepted. -/
def validatedRequest : List RequestAction :=
  [.queue (.reserve
      { runId := "run", workflowName := "review", workflowSourceRef := "builtin:review"
        workflowSource := .null, definitionDigest := String.ofList (List.replicate 64 'a')
        input := .null, originSessionId := "session", executionMode := some .headless } 0),
    .elsewhere fun db =>
      let attempt : AttemptRow :=
        { runId := "run", nodeId := "review", attemptNumber := 1, status := .waiting, updatedAt := 0 }
      { db with attempts := db.attempts.insertMissing [("attempt", attempt)] },
    .ensure 1
      { requestId := "request", runId := "run", attemptId := "attempt"
        targetSessionId := "session", kind := .agent, contract := .null },
    .beginValidation 2
      { requestId := "request", submissionId := "first", idempotencyKey := "key"
        expectedRevision := 1, payload := .str "done" },
    .finishValidation 3 "request" "first" true .null]

/-- Another candidate comes late, and the run is cancelled. -/
def afterValidation : List RequestAction :=
  [.submit 4
      { requestId := "request", submissionId := "second", idempotencyKey := "other"
        expectedRevision := 2, payload := .str "late" } true,
    .queue (.cancel "run" none 5)]

theorem validatedRequest_kept :
    ∃ request', (requestRun id ⟨fun _ => none, fun _ => ""⟩ (requestRun id
        ⟨fun _ => none, fun _ => ""⟩ .empty validatedRequest) afterValidation).requests.get?
          "request" = some request' ∧ request'.status = .settled "first" 3 := by
  obtain ⟨request', hrequest', hkept⟩ :=
    (requestRun_settlesOnce Function.injective_id ⟨fun _ => none, fun _ => ""⟩ validatedRequest
      afterValidation "request" _ rfl).1
  exact ⟨request', hrequest', hkept (by decide)⟩

end PiWorkflows
