import Mathlib.Data.List.Induction
import PiWorkflows.Proofs.SameJson
import PiWorkflows.Workflows.HumanDecision

/-!
# What becomes of a human decision

The resolution of a decision is one row that is only ever inserted, so whoever
comes first decides, and every call after that finds it there. `step_change` lists
what a call can do to the resolution and to the answers of one decision.

The acceptance marks its own answer as won. A later answer that passes the checks
is marked as late without a look at what it is marked as, so the winner itself,
sent again, takes its own mark away. The record of the winner is right in every
state of a run exactly if that does not happen (`decisionRun_arbitrated_iff`).
-/

namespace PiWorkflows

open Fallible

theorem textMember_storedJson (value : Json) (key : String) :
    textMember (storedJson value) key = textMember value key :=
  textMember_same (sameJson_normalize value) key

theorem HumanDecisionRequest.textMember_requestDigest (request : HumanDecisionRequest) :
    textMember request.json "requestDigest" = some request.requestDigest := rfl

theorem validateHumanDecisionRequestIntegrity_ok {sha256 : String → String}
    {normalize : Json → Except String Json} {request : Json} {requestDigest : String}
    (h : validateHumanDecisionRequestIntegrity sha256 normalize request = .ok requestDigest) :
    textMember request "requestDigest" = some requestDigest := by
  unfold validateHumanDecisionRequestIntegrity at h
  simp only [bind_ok, require_ok, orThrow_ok, pure_ok] at h
  obtain ⟨_, -, _, -, _, -, _, -, _, -, _, -, _, hdigest, rfl⟩ := h
  exact hdigest

namespace HumanDecisionStore

variable {sha256 : String → String} {dates : HostDates} {normalize : Json → Except String Json}
  {s s' : HumanDecisionStore}

theorem requireStoredRequest_ok {request : HumanDecisionRequest} {u : PUnit}
    (h : s.requireStoredRequest sha256 normalize request = .ok u) :
    ∃ row, s.db.decisions.get? request.decisionId = some row ∧
      (∃ digest, validateHumanDecisionRequestIntegrity sha256 normalize row.request = .ok digest) ∧
      SameJson row.request request.json := by
  unfold requireStoredRequest at h
  simp only [bind_ok, require_ok, orThrow_ok] at h
  obtain ⟨row, hrow, digest, hdigest, hsame⟩ := h
  exact ⟨row, hrow, ⟨digest, hdigest⟩, canonicalJson_eq_iff_same.1 hsame⟩

theorem enqueueResolutionEffects_frame {db db' : Db} {request : HumanDecisionRequest}
    {outcome : String} {now : Int}
    (h : enqueueResolutionEffects sha256 db request outcome now = .ok db') :
    ∃ effects, db' = { db with effects := effects } := by
  unfold enqueueResolutionEffects at h
  generalize resolutionEffects outcome = types at h
  induction types generalizing db with
  | nil =>
      cases h
      exact ⟨_, rfl⟩
  | cons effectType rest ih =>
      rw [List.foldlM_cons, bind_ok] at h
      obtain ⟨_, hfirst, hrest⟩ := h
      unfold enqueueResolutionEffect at hfirst
      simp only [bind_ok, orThrow_ok, pure_ok] at hfirst
      obtain ⟨_, -, rfl⟩ := hfirst
      obtain ⟨effects, rfl⟩ := ih hrest
      exact ⟨effects, rfl⟩

theorem enqueueResolutionEffects_ok {db db' : Db} {request : HumanDecisionRequest}
    {outcome : String} {now : Int}
    (h : enqueueResolutionEffects sha256 db request outcome now = .ok db') :
    db'.decisions = db.decisions ∧ db'.resolutions = db.resolutions := by
  obtain ⟨_, rfl⟩ := enqueueResolutionEffects_frame h
  exact ⟨rfl, rfl⟩

theorem cancelWorkflowRun_resolutions {db db' : Db} {runId : String} {claimToken : Option String}
    {now : Int} {accepted : Bool}
    (h : PiWorkflows.cancelWorkflowRun sha256 db runId claimToken now = .ok (db', accepted)) :
    db'.decisions = db.decisions ∧
      (db'.resolutions = db.resolutions ∨
        ∃ actorId, db'.resolutions = (cancelRunDecisions db runId now actorId).resolutions) := by
  have hterminal : ∀ db' : Db, db' = (terminalRun sha256 db runId claimToken .cancelled "cancelled"
      "Workflow run cancelled" now).1 → db'.decisions = db.decisions ∧
      (db'.resolutions = db.resolutions ∨
        ∃ actorId, db'.resolutions = (cancelRunDecisions db runId now actorId).resolutions) := by
    rintro _ rfl
    unfold terminalRun
    split
    · exact ⟨rfl, .inl rfl⟩
    · next row _ =>
        split
        · -- Whether the lease is released does not matter here.
          cases claimToken <;> exact ⟨rfl, .inr ⟨_, rfl⟩⟩
        · exact ⟨rfl, .inl rfl⟩
  unfold PiWorkflows.cancelWorkflowRun at h
  dsimp only at h
  split at h
  · cases h
    exact hterminal _ rfl
  · unfold cancelStaleWorkflowRun at h
    split at h
    · cases h
      exact ⟨rfl, .inl rfl⟩
    · split at h
      · cases h
        exact ⟨rfl, .inl rfl⟩
      · simp only [bind_ok, pure_ok, Prod.mk.injEq] at h
        obtain ⟨_, -, rfl, -⟩ := h
        exact ⟨rfl, .inr ⟨_, rfl⟩⟩

/-! ## Answers -/

/-- A call that offers an answer to a decision, with what it is made into. -/
inductive Offers (sha256 : String → String) (dates : HostDates)
    (normalize : Json → Except String Json) (s : HumanDecisionStore) :
    Action → HumanDecisionRequest → Option RunWriteAuthority → ResolvedHumanDecision →
      AcceptanceAttempt → Int → Prop
  | human {request : HumanDecisionRequest} {submission : HumanDecisionSubmission}
      {clock : AnswerClock} {decision : ResolvedHumanDecision} {attempt : AcceptanceAttempt}
      (h : humanAnswer sha256 dates normalize request submission clock = .ok (decision, attempt)) :
      Offers sha256 dates normalize s (.accept request submission clock) request none decision
        attempt clock.arbitratedAt
  | policy {request : HumanDecisionRequest} {authority : Option RunWriteAuthority} {now : Int}
      {decision : ResolvedHumanDecision} {attempt : AcceptanceAttempt}
      (h : s.policyAnswer sha256 dates normalize request authority now = .ok (decision, attempt)) :
      Offers sha256 dates normalize s (.resolveTimeout request authority now) request authority
        decision attempt now

/-- An offered answer that passes the checks. -/
def Passes (sha256 : String → String) (dates : HostDates) (normalize : Json → Except String Json)
    (s : HumanDecisionStore) (action : Action) (request : HumanDecisionRequest)
    (decision : ResolvedHumanDecision) (attempt : AcceptanceAttempt) (time : Int) : Prop :=
  ∃ authority, Offers sha256 dates normalize s action request authority decision attempt time ∧
    s.checkAcceptance sha256 normalize request authority attempt time = .ok .unit

theorem step_offer {action : Action} {request : HumanDecisionRequest}
    {authority : Option RunWriteAuthority} {decision : ResolvedHumanDecision}
    {attempt : AcceptanceAttempt} {time : Int}
    (h : Offers sha256 dates normalize s action request authority decision attempt time) :
    step sha256 dates normalize s action =
      (s.attemptAcceptance sha256 dates normalize request authority decision attempt time).map
        Prod.fst := by
  cases h with
  | human h => rw [step, accept, h]; rfl
  | policy h => rw [step, resolveTimeout, h]; rfl

theorem accept_offers {request : HumanDecisionRequest} {submission : HumanDecisionSubmission}
    {clock : AnswerClock}
    (h : step sha256 dates normalize s (.accept request submission clock) = .ok s') :
    ∃ decision attempt, Offers sha256 dates normalize s (.accept request submission clock) request
      none decision attempt clock.arbitratedAt := by
  simp only [step, accept, map_ok, bind_ok] at h
  obtain ⟨_, ⟨⟨decision, attempt⟩, hanswer, -⟩, -⟩ := h
  exact ⟨decision, attempt, .human hanswer⟩

theorem resolveTimeout_offers {request : HumanDecisionRequest}
    {authority : Option RunWriteAuthority} {now : Int}
    (h : step sha256 dates normalize s (.resolveTimeout request authority now) = .ok s') :
    ∃ decision attempt, Offers sha256 dates normalize s (.resolveTimeout request authority now)
      request authority decision attempt now := by
  simp only [step, resolveTimeout, map_ok, bind_ok] at h
  obtain ⟨_, ⟨⟨decision, attempt⟩, hanswer, -⟩, -⟩ := h
  exact ⟨decision, attempt, .policy hanswer⟩

/-- The answer under an attempt, if it is offered and then marked. -/
theorem answers_marked (decisionId : String) (attempt : AcceptanceAttempt) (submittedAt : Int)
    (outcome : AnswerOutcome) (result : Option Json) :
    ∃ answer, answer.outcome = outcome ∧ answer.result = result ∧
      answer.candidate = ((s.answers.get? (decisionId, attempt.attemptId)).map
        AnswerRow.candidate).getD (storedJson attempt.candidate) ∧
      ∀ key, ((s.insertAnswer decisionId attempt submittedAt).markSubmission decisionId
        attempt.attemptId outcome result).answers.get? key =
          if key = (decisionId, attempt.attemptId) then some answer else s.answers.get? key := by
  let fresh : AnswerRow :=
    { source := attempt.source, actorId := attempt.actorId, channel := attempt.channel
      candidate := storedJson attempt.candidate, outcome := .rejected
      submittedAt := submittedAt }
  refine ⟨{ (s.answers.get? (decisionId, attempt.attemptId)).getD fresh with
    outcome := outcome, result := result }, rfl, rfl, ?_, fun key => ?_⟩
  · cases s.answers.get? (decisionId, attempt.attemptId) <;> rfl
  show Table.get? (Table.update _ _ _) key = _
  rw [Table.get?_update, insertAnswer, Table.get?_insert?_getD]
  split <;> rfl

theorem readResolution_accepted {decisionId : String} {won : Json}
    (h : s.readResolution sha256 normalize decisionId = .ok (some (.accepted won))) :
    ∃ row, s.db.resolutions.get? decisionId = some row ∧ row.outcome = .ok won := by
  unfold readResolution at h
  split at h
  · cases h
  · next row hrow =>
      simp only [bind_ok, map_ok, Option.some.injEq] at h
      obtain ⟨_, -, _, -, _, -, _, hread, rfl⟩ := h
      unfold resolutionOf at hread
      split at hread
      · next decision houtcome =>
          simp only [bind_ok, pure_ok, HumanDecisionResolution.accepted.injEq] at hread
          obtain ⟨_, -, rfl⟩ := hread
          exact ⟨row, hrow, houtcome⟩
      · cases hread

/-- What an answer does that passes the checks and is not refused after them. -/
theorem attemptAcceptance_ok {request : HumanDecisionRequest}
    {authority : Option RunWriteAuthority} {decision : ResolvedHumanDecision}
    {attempt : AcceptanceAttempt} {time : Int} {answer : AcceptanceStatus × Json}
    (h : s.attemptAcceptance sha256 dates normalize request authority decision attempt time =
      .ok (s', answer)) :
    s.checkAcceptance sha256 normalize request authority attempt time = .ok .unit ∧
      s'.db.decisions = s.db.decisions ∧ s'.deadlines = s.deadlines ∧
      ((s'.db = s.db ∧
        (∃ row won, s.db.resolutions.get? request.decisionId = some row ∧ row.outcome = .ok won) ∧
        s'.answers = ((s.insertAnswer request.decisionId attempt decision.acceptedAt).markSubmission
          request.decisionId attempt.attemptId .already_resolved none).answers) ∨
      (s.db.resolutions.get? request.decisionId = none ∧
        (∀ key, s'.db.resolutions.get? key = if key = request.decisionId then
          some ⟨.ok (storedJson (decision.json dates)), attempt.actorId, request.requestDigest,
            decision.acceptedAt⟩ else s.db.resolutions.get? key) ∧
        s'.answers = ((s.insertAnswer request.decisionId attempt decision.acceptedAt).markSubmission
          request.decisionId attempt.attemptId .won
            (some (storedJson (decision.json dates)))).answers)) := by
  unfold attemptAcceptance at h
  simp only [bind_ok] at h
  obtain ⟨_, hcheck, winner, hwinner, h⟩ := h
  refine ⟨hcheck, ?_⟩
  cases winner with
  | some winner =>
      cases winner with
      | cancelled reason => cases h
      | accepted won =>
          obtain ⟨row, hrow, houtcome⟩ := readResolution_accepted hwinner
          simp only [answerResolved] at h
          -- Whether the answer is the same only decides what the caller is told.
          split at h <;>
            · cases h
              exact ⟨rfl, rfl, .inl ⟨rfl, ⟨row, won, hrow, houtcome⟩, rfl⟩⟩
  | none =>
      unfold resolveAccepted at h
      simp only [bind_ok, orThrow_ok, pure_ok, Prod.mk.injEq] at h
      obtain ⟨resolutions, hinsert, db, heffects, rfl, -⟩ := h
      obtain ⟨hopen, hget⟩ := Table.get?_of_insert? hinsert
      obtain ⟨hdecisions, hresolutions⟩ := enqueueResolutionEffects_ok heffects
      refine ⟨hdecisions, rfl, .inr ⟨hopen, fun key => ?_, rfl⟩⟩
      show db.resolutions.get? key = _
      rw [hresolutions]
      exact hget key

theorem checkAcceptance_ok {request : HumanDecisionRequest} {authority : Option RunWriteAuthority}
    {attempt : AcceptanceAttempt} {time : Int} {u : PUnit}
    (h : s.checkAcceptance sha256 normalize request authority attempt time = .ok u) :
    (∃ row, s.db.decisions.get? request.decisionId = some row ∧
      (∃ digest, validateHumanDecisionRequestIntegrity sha256 normalize row.request = .ok digest) ∧
      SameJson row.request request.json) ∧
    ∃ deadline, s.deadlines.get? request.decisionId = some deadline ∧
      (attempt.source = .human → deadline.all (fun deadline => time ≤ deadline) = true) ∧
      (attempt.source = .policy → deadline.any (fun deadline => deadline ≤ time) = true) := by
  unfold checkAcceptance at h
  simp only [bind_ok, require_ok, orThrow_ok, onlyIf_ok] at h
  obtain ⟨_, hstored, deadline, hdeadline, _, hhuman, _, hpolicy, _, -, -⟩ := h
  exact ⟨requireStoredRequest_ok hstored, deadline, hdeadline, hhuman, hpolicy⟩

/-! ## What one call does -/

/-- The resolution of a decision. -/
def resolution (s : HumanDecisionStore) (decisionId : String) : Option ResolutionRow :=
  s.db.resolutions.get? decisionId

/-- The resolution carries the digest of the decision it is for. -/
def FiledUnder (s : HumanDecisionStore) (decisionId : String) (row : ResolutionRow) : Prop :=
  ∃ decision, s.db.decisions.get? decisionId = some decision ∧
    row.requestDigest = decision.requestDigest

/-- What the tables say of a decision fits together. -/
structure Filed (s : HumanDecisionStore) (decisionId : String) : Prop where
  request : ∀ row, s.db.decisions.get? decisionId = some row →
    textMember row.request "requestDigest" = some row.requestDigest
  resolution : ∀ row, s.resolution decisionId = some row → s.FiledUnder decisionId row ∧
    ∀ response, row.outcome = .ok response → isCurrentDecision response = true
  winner : ∀ attemptId answer, s.answers.get? (decisionId, attemptId) = some answer →
    answer.outcome = .won →
      ∃ row response, s.resolution decisionId = some row ∧ row.outcome = .ok response

/-- What a call can do to the resolution and the answers of a decision. -/
inductive DecisionChange (sha256 : String → String) (dates : HostDates)
    (normalize : Json → Except String Json) (s s' : HumanDecisionStore) (decisionId : String)
    (action : Action) : Prop
  | kept (hresolution : s'.resolution decisionId = s.resolution decisionId)
      (hanswers : ∀ attemptId,
        s'.answers.get? (decisionId, attemptId) = s.answers.get? (decisionId, attemptId))
  | cancelled (row : ResolutionRow) (reason : String)
      (hopen : s.resolution decisionId = none) (hrow : s'.resolution decisionId = some row)
      (houtcome : row.outcome = .error reason) (hfiled : s.FiledUnder decisionId row)
      (hanswers : ∀ attemptId,
        s'.answers.get? (decisionId, attemptId) = s.answers.get? (decisionId, attemptId))
  | accepted (request : HumanDecisionRequest) (decision : ResolvedHumanDecision)
      (attempt : AcceptanceAttempt) (time : Int) (row : ResolutionRow) (answer : AnswerRow)
      (hpasses : Passes sha256 dates normalize s action request decision attempt time)
      (hid : request.decisionId = decisionId)
      (hopen : s.resolution decisionId = none) (hrow : s'.resolution decisionId = some row)
      (houtcome : row.outcome = .ok (storedJson (decision.json dates)))
      (hfiled : s.FiledUnder decisionId row) (hwon : answer.outcome = .won)
      (hresult : answer.result = some (storedJson (decision.json dates)))
      (hanswers : ∀ attemptId, s'.answers.get? (decisionId, attemptId) =
        if attemptId = attempt.attemptId then some answer
        else s.answers.get? (decisionId, attemptId))
  | answered (request : HumanDecisionRequest) (decision : ResolvedHumanDecision)
      (attempt : AcceptanceAttempt) (time : Int) (row : ResolutionRow) (response : Json)
      (answer : AnswerRow)
      (hpasses : Passes sha256 dates normalize s action request decision attempt time)
      (hid : request.decisionId = decisionId)
      (hrow : s.resolution decisionId = some row) (houtcome : row.outcome = .ok response)
      (hresolution : s'.resolution decisionId = s.resolution decisionId)
      (hmarked : answer.outcome = .already_resolved)
      (hanswers : ∀ attemptId, s'.answers.get? (decisionId, attemptId) =
        if attemptId = attempt.attemptId then some answer
        else s.answers.get? (decisionId, attemptId))

theorem FiledUnder.of_request {request : HumanDecisionRequest} {decision : DecisionRow}
    {row : ResolutionRow} (hfiled : Filed s request.decisionId)
    (hdecision : s.db.decisions.get? request.decisionId = some decision)
    (hsame : SameJson decision.request request.json)
    (hdigest : row.requestDigest = request.requestDigest) :
    s.FiledUnder request.decisionId row := by
  refine ⟨decision, hdecision, ?_⟩
  have hstored := hfiled.request decision hdecision
  rw [textMember_same hsame, request.textMember_requestDigest, Option.some.injEq] at hstored
  exact hdigest.trans hstored

theorem offered_change {action : Action} {decisionId : String} {request : HumanDecisionRequest}
    {authority : Option RunWriteAuthority} {decision : ResolvedHumanDecision}
    {attempt : AcceptanceAttempt} {time : Int} (hfiled : Filed s decisionId)
    (hoffer : Offers sha256 dates normalize s action request authority decision attempt time)
    (h : step sha256 dates normalize s action = .ok s') :
    s'.db.decisions = s.db.decisions ∧ s'.deadlines = s.deadlines ∧
      DecisionChange sha256 dates normalize s s' decisionId action := by
  rw [step_offer hoffer, map_ok] at h
  obtain ⟨⟨s', answer⟩, h, rfl⟩ := h
  obtain ⟨hcheck, hdecisions, hdeadlines, hcases⟩ := attemptAcceptance_ok h
  have hpasses : Passes sha256 dates normalize s action request decision attempt time :=
    ⟨authority, hoffer, hcheck⟩
  refine ⟨hdecisions, hdeadlines, ?_⟩
  obtain ⟨⟨row, hrow, -, hsame⟩, -⟩ := checkAcceptance_ok hcheck
  rcases hcases with ⟨hdb, ⟨resolved, won, hresolved, houtcome⟩, hanswers⟩ |
    ⟨hopen, hresolutions, hanswers⟩
  · obtain ⟨marked, hmarked, -, -, hget⟩ := answers_marked (s := s) request.decisionId attempt
      decision.acceptedAt .already_resolved none
    rw [← hanswers] at hget
    have hkept : s'.resolution decisionId = s.resolution decisionId := by
      rw [resolution, hdb, resolution]
    by_cases hid : request.decisionId = decisionId
    · subst hid
      refine .answered request decision attempt time resolved won marked hpasses rfl hresolved
        houtcome hkept hmarked fun attemptId => ?_
      rw [hget]
      simp only [Prod.mk.injEq, true_and]
    · refine .kept hkept fun attemptId => ?_
      rw [hget, if_neg fun heq => hid (congrArg Prod.fst heq).symm]
  · obtain ⟨marked, hwon, hresult, -, hget⟩ := answers_marked (s := s) request.decisionId attempt
      decision.acceptedAt .won (some (storedJson (decision.json dates)))
    rw [← hanswers] at hget
    by_cases hid : request.decisionId = decisionId
    · subst hid
      refine .accepted request decision attempt time _ marked hpasses rfl hopen
        ((hresolutions _).trans (if_pos rfl)) rfl
        (.of_request hfiled hrow hsame rfl) hwon hresult fun attemptId => ?_
      rw [hget]
      simp only [Prod.mk.injEq, true_and]
    · refine .kept ?_ fun attemptId => ?_
      · rw [resolution, hresolutions, if_neg (Ne.symm hid), resolution]
      · rw [hget, if_neg fun heq => hid (congrArg Prod.fst heq).symm]

theorem cancel_ok {request : HumanDecisionRequest} {reason : CancellationReason}
    {authority : Option RunWriteAuthority} {now : Int} {adopted : Bool}
    (h : s.cancel sha256 dates normalize request reason authority now = .ok (s', adopted)) :
    s' = s ∨ (∃ row, s.db.decisions.get? request.decisionId = some row ∧
        SameJson row.request request.json) ∧
      s.db.resolutions.get? request.decisionId = none ∧
      (∀ key, s'.db.resolutions.get? key = if key = request.decisionId then
        some ⟨.error reason.text, none, request.requestDigest, now⟩
        else s.db.resolutions.get? key) ∧
      s'.db.decisions = s.db.decisions ∧ s'.deadlines = s.deadlines ∧ s'.answers = s.answers := by
  unfold cancel at h
  simp only [bind_ok] at h
  obtain ⟨_, -, _, -, _, hstored, winner, -, h⟩ := h
  obtain ⟨row, hrow, -, hsame⟩ := requireStoredRequest_ok hstored
  cases winner with
  | some winner =>
      cases winner with
      | cancelled other =>
          simp only [bind_ok, pure_ok, Prod.mk.injEq] at h
          obtain ⟨_, -, rfl, -⟩ := h
          exact .inl rfl
      | accepted _ => cases h
  | none =>
      unfold resolveCancelled at h
      simp only [map_ok, bind_ok, orThrow_ok, pure_ok, Prod.mk.injEq] at h
      obtain ⟨_, ⟨_, -, resolutions, hinsert, db, heffects, rfl⟩, rfl, -⟩ := h
      obtain ⟨hopen, hget⟩ := Table.get?_of_insert? hinsert
      obtain ⟨hdecisions, hresolutions⟩ := enqueueResolutionEffects_ok heffects
      refine .inr ⟨⟨row, hrow, hsame⟩, hopen, fun key => ?_, hdecisions, rfl, rfl⟩
      show db.resolutions.get? key = _
      rw [hresolutions]
      exact hget key

theorem createRequest_ok {request : HumanDecisionRequest}
    (h : s.createRequest sha256 dates normalize request = .ok s') :
    s'.db.resolutions = s.db.resolutions ∧ s'.answers = s.answers ∧
      (∀ key, s'.deadlines.get? key = if key = request.decisionId then
        some ((s.deadlines.get? key).getD (request.expiresAt.bind dates.parse))
        else s.deadlines.get? key) ∧
      (s'.db.decisions = s.db.decisions ∨
        s.db.decisions.get? request.decisionId = none ∧
          ∃ row, textMember row.request "requestDigest" = some row.requestDigest ∧
            ∀ key, s'.db.decisions.get? key =
              if key = request.decisionId then some row else s.db.decisions.get? key) := by
  unfold createRequest createDecision at h
  simp only [bind_ok, pure_ok] at h
  obtain ⟨db, ⟨requestDigest, hdigest, h⟩, rfl⟩ := h
  have hdeadlines : ∀ key, Table.get? ((s.deadlines.insert? request.decisionId
      (request.expiresAt.bind dates.parse)).getD s.deadlines) key =
        if key = request.decisionId then
          some ((s.deadlines.get? key).getD (request.expiresAt.bind dates.parse))
        else s.deadlines.get? key := by
    intro key
    rw [Table.get?_insert?_getD]
    split
    · next heq => rw [heq]
    · rfl
  split at h
  · simp only [bind_ok, pure_ok] at h
    obtain ⟨_, -, rfl⟩ := h
    exact ⟨rfl, rfl, hdeadlines, .inl rfl⟩
  · simp only [bind_ok, orThrow_ok, pure_ok] at h
    obtain ⟨_, -, _, -, decisions, hinsert, rfl⟩ := h
    obtain ⟨hfree, hget⟩ := Table.get?_of_insert? hinsert
    refine ⟨rfl, rfl, hdeadlines, .inr ⟨hfree, _, ?_, hget⟩⟩
    rw [textMember_storedJson]
    exact validateHumanDecisionRequestIntegrity_ok hdigest

/-- The resolution a cancellation of the run leaves for a decision. -/
theorem cancelRunDecisions_resolution {db : Db} {runId decisionId actorId : String} {now : Int}
    {row : ResolutionRow} (hopen : db.resolutions.get? decisionId = none)
    (h : (cancelRunDecisions db runId now actorId).resolutions.get? decisionId = some row) :
    row.outcome = .error "Workflow run cancelled" ∧
      ∃ decision, db.decisions.get? decisionId = some decision ∧
        row.requestDigest = decision.requestDigest := by
  rw [cancelRunDecisions, Table.get?_insertMissing, hopen, Option.none_or] at h
  obtain ⟨⟨id, decision⟩, hmem, heq⟩ := List.mem_map.1 (Assoc.mem_of_lookup h)
  obtain ⟨rfl, rfl⟩ := Prod.mk.inj heq
  exact ⟨rfl, decision, Table.mem_rows.1 (List.mem_of_mem_filter hmem), rfl⟩

/-- The request of a decision is stored once, under its digest. -/
def RequestKept (s s' : HumanDecisionStore) (decisionId : String) : Prop :=
  s'.db.decisions.get? decisionId = s.db.decisions.get? decisionId ∨
    s.db.decisions.get? decisionId = none ∧ ∃ row,
      s'.db.decisions.get? decisionId = some row ∧
        textMember row.request "requestDigest" = some row.requestDigest

/-- What a call that was accepted did to a decision. -/
theorem step_change {action : Action} {decisionId : String} (hfiled : Filed s decisionId)
    (h : step sha256 dates normalize s action = .ok s') :
    RequestKept s s' decisionId ∧
      (∀ deadline, s.deadlines.get? decisionId = some deadline →
        s'.deadlines.get? decisionId = some deadline) ∧
      DecisionChange sha256 dates normalize s s' decisionId action := by
  cases action with
  | createRequest request =>
      obtain ⟨hresolutions, hanswers, hdeadlines, hdecisions⟩ := createRequest_ok h
      refine ⟨?_, ?_, .kept ?_ ?_⟩
      · rcases hdecisions with hsame | ⟨hfree, row, hrow, hget⟩
        · exact .inl (by rw [hsame])
        · by_cases hid : decisionId = request.decisionId
          · subst hid
            exact .inr ⟨hfree, row, (hget _).trans (if_pos rfl), hrow⟩
          · exact .inl ((hget _).trans (if_neg hid))
      · intro deadline hdeadline
        rw [hdeadlines, hdeadline]
        split <;> rfl
      · rw [resolution, hresolutions, resolution]
      · intro attemptId
        rw [hanswers]
  | accept request submission clock =>
      obtain ⟨decision, attempt, hoffer⟩ := accept_offers h
      obtain ⟨hdecisions, hdeadlines, hchange⟩ := offered_change hfiled hoffer h
      exact ⟨.inl (by rw [hdecisions]), fun _ hd => by rw [hdeadlines, hd], hchange⟩
  | resolveTimeout request authority now =>
      obtain ⟨decision, attempt, hoffer⟩ := resolveTimeout_offers h
      obtain ⟨hdecisions, hdeadlines, hchange⟩ := offered_change hfiled hoffer h
      exact ⟨.inl (by rw [hdecisions]), fun _ hd => by rw [hdeadlines, hd], hchange⟩
  | cancel request reason authority now =>
      rw [step, map_ok] at h
      obtain ⟨⟨s', adopted⟩, h, rfl⟩ := h
      rcases cancel_ok h with rfl | ⟨⟨row, hrow, hsame⟩, hopen, hget, hdecisions, hdeadlines,
        hanswers⟩
      · exact ⟨.inl rfl, fun _ hd => hd, .kept rfl fun _ => rfl⟩
      · refine ⟨.inl (by rw [hdecisions]), fun _ hd => by rw [hdeadlines, hd], ?_⟩
        have hsameAnswers : ∀ attemptId, s'.answers.get? (decisionId, attemptId) =
            s.answers.get? (decisionId, attemptId) := fun _ => by rw [hanswers]
        by_cases hid : decisionId = request.decisionId
        · subst hid
          exact .cancelled _ reason.text hopen ((hget _).trans (if_pos rfl)) rfl
            (.of_request hfiled hrow hsame rfl) hsameAnswers
        · exact .kept ((hget _).trans (if_neg hid)) hsameAnswers
  | cancelWorkflowRun runId claimToken now =>
      rw [step, bind_ok] at h
      obtain ⟨⟨db, accepted⟩, hcancel, h⟩ := h
      obtain rfl := pure_ok.1 h
      obtain ⟨hdecisions, hresolutions⟩ := cancelWorkflowRun_resolutions hcancel
      refine ⟨.inl (by rw [hdecisions]), fun _ hd => hd, ?_⟩
      rcases hresolutions with hsame | ⟨actorId, hcancelled⟩
      · exact .kept (by rw [resolution, hsame, resolution]) fun _ => rfl
      · cases hopen : s.resolution decisionId with
        | some row =>
            refine .kept ?_ fun _ => rfl
            rw [resolution] at hopen
            rw [resolution, hcancelled, cancelRunDecisions, Table.get?_insertMissing, hopen,
              Option.some_or, resolution, hopen]
        | none =>
            cases hrow :
                (cancelRunDecisions s.db runId now actorId).resolutions.get? decisionId with
            | none =>
                refine .kept ?_ fun _ => rfl
                rw [resolution, hcancelled, hrow, hopen]
            | some row =>
                obtain ⟨houtcome, hunder⟩ := cancelRunDecisions_resolution hopen hrow
                exact .cancelled row _ hopen (by rw [resolution, hcancelled, hrow]) houtcome
                  hunder fun _ => rfl
  | elsewhere change =>
      cases h
      exact ⟨.inl rfl, fun _ hd => hd, .kept rfl fun _ => rfl⟩

theorem FiledUnder.kept {decisionId : String} {row : ResolutionRow}
    (hkept : RequestKept s s' decisionId) (h : s.FiledUnder decisionId row) :
    s'.FiledUnder decisionId row := by
  obtain ⟨decision, hdecision, hdigest⟩ := h
  rcases hkept with hsame | ⟨hfree, -⟩
  · exact ⟨decision, hsame.trans hdecision, hdigest⟩
  · rw [hfree] at hdecision
    cases hdecision

theorem isCurrentDecision_json (decision : ResolvedHumanDecision) :
    isCurrentDecision (storedJson (decision.json dates)) = true := by
  have hmember : ∀ key, ((storedJson (decision.json dates)).member? key).isSome =
      ((decision.json dates).member? key).isSome :=
    fun key => ((sameJson_normalize _).member? key).isSome_eq
  rw [isCurrentDecision, decide_eq_true_eq, textMember_storedJson]
  simp only [hmember]
  refine ⟨rfl, fun key hkey => ?_⟩
  simp only [List.mem_cons, List.not_mem_nil, or_false] at hkey
  rcases hkey with rfl | rfl | rfl <;> rfl

theorem DecisionChange.filed {action : Action} {decisionId : String}
    (hfiled : Filed s decisionId) (hkept : RequestKept s s' decisionId)
    (h : DecisionChange sha256 dates normalize s s' decisionId action) : Filed s' decisionId where
  request := by
    intro row hrow
    rcases hkept with hsame | ⟨-, made, hmade, hdigest⟩
    · exact hfiled.request row (hsame ▸ hrow)
    · obtain rfl := Option.some.inj (hmade.symm.trans hrow)
      exact hdigest
  resolution := by
    intro row hrow
    cases h with
    | kept hresolution | answered _ _ _ _ _ _ _ _ _ _ _ hresolution =>
        obtain ⟨hunder, hcurrent⟩ := hfiled.resolution row (hresolution ▸ hrow)
        exact ⟨hunder.kept hkept, hcurrent⟩
    | cancelled row' reason _ hrow' houtcome hunder =>
        obtain rfl := Option.some.inj (hrow'.symm.trans hrow)
        refine ⟨hunder.kept hkept, fun response hresponse => ?_⟩
        rw [houtcome] at hresponse
        cases hresponse
    | accepted _ decision _ _ row' _ _ _ _ hrow' houtcome hunder =>
        obtain rfl := Option.some.inj (hrow'.symm.trans hrow)
        refine ⟨hunder.kept hkept, fun response hresponse => ?_⟩
        rw [houtcome, Except.ok.injEq] at hresponse
        exact hresponse ▸ isCurrentDecision_json decision
  winner := by
    intro attemptId answer hanswer hwon
    cases h with
    | kept hresolution hanswers =>
        rw [hresolution]
        exact hfiled.winner attemptId answer (hanswers attemptId ▸ hanswer) hwon
    | cancelled _ _ hopen _ _ _ hanswers =>
        obtain ⟨row, _, hrow, -⟩ :=
          hfiled.winner attemptId answer (hanswers attemptId ▸ hanswer) hwon
        rw [hopen] at hrow
        cases hrow
    | accepted _ _ _ _ row _ _ _ _ hrow houtcome => exact ⟨row, _, hrow, houtcome⟩
    | answered _ _ _ _ row response _ _ _ hrow houtcome hresolution =>
        exact ⟨row, response, hresolution.trans hrow, houtcome⟩

/-! ## The winner -/

/-- Exactly one answer of a decision that was accepted is marked as won, and it has
the response the resolution stores. -/
def WinnerRecorded (s : HumanDecisionStore) (decisionId : String) : Prop :=
  ∀ row response, s.resolution decisionId = some row → row.outcome = .ok response →
    ∃ attemptId answer, s.answers.get? (decisionId, attemptId) = some answer ∧
      answer.outcome = .won ∧ answer.result = some response ∧
      ∀ other answer', s.answers.get? (decisionId, other) = some answer' →
        answer'.outcome = .won → other = attemptId

/-- The call offers the answer again that is marked as won, and it passes the checks
again. -/
def RetriesWinner (sha256 : String → String) (dates : HostDates)
    (normalize : Json → Except String Json) (s : HumanDecisionStore) (decisionId : String)
    (action : Action) : Prop :=
  ∃ request decision attempt time answer,
    Passes sha256 dates normalize s action request decision attempt time ∧
      request.decisionId = decisionId ∧
      s.answers.get? (decisionId, attempt.attemptId) = some answer ∧ answer.outcome = .won

/-- The resolution of a decision is read back. -/
theorem readResolution_filed {decisionId requestDigest : String} {decision : DecisionRow}
    {row : ResolutionRow} {response : Json} (hfiled : Filed s decisionId)
    (hdecision : s.db.decisions.get? decisionId = some decision)
    (hvalid : validateHumanDecisionRequestIntegrity sha256 normalize decision.request =
      .ok requestDigest)
    (hrow : s.resolution decisionId = some row) (houtcome : row.outcome = .ok response) :
    s.readResolution sha256 normalize decisionId = .ok (some (.accepted response)) := by
  obtain ⟨⟨decision', hdecision', hdigest⟩, hcurrent⟩ := hfiled.resolution row hrow
  obtain rfl := Option.some.inj (hdecision'.symm.trans hdecision)
  have hrequest : row.requestDigest = requestDigest := by
    have hstored := (hfiled.request decision' hdecision).symm.trans
      (validateHumanDecisionRequestIntegrity_ok hvalid)
    exact hdigest.trans (Option.some.inj hstored)
  have hread : resolutionOf row = .ok (.accepted response) := by
    rw [resolutionOf, houtcome]
    simp only [bind_ok, require_ok, pure_ok]
    exact ⟨.unit, hcurrent response houtcome, trivial⟩
  rw [resolution] at hrow
  rw [readResolution, hrow]
  simp only [bind_ok, require_ok, orThrow_ok, map_ok]
  exact ⟨decision', hdecision, requestDigest, hvalid, .unit, hrequest, _, hread, rfl⟩

theorem readResolution_insertAnswer (decisionId : String) (attempt : AcceptanceAttempt)
    (submittedAt : Int) (key : String) :
    (s.insertAnswer decisionId attempt submittedAt).readResolution sha256 normalize key =
      s.readResolution sha256 normalize key := rfl

theorem answerResolved_accepted (request : HumanDecisionRequest) (attempt : AcceptanceAttempt)
    (decision : ResolvedHumanDecision) (won : Json) :
    ∃ status, s.answerResolved dates request attempt decision (.accepted won) =
      .ok (s.markSubmission request.decisionId attempt.attemptId .already_resolved none, status,
        won) := by
  simp only [answerResolved]
  split
  · exact ⟨.adopted, rfl⟩
  · exact ⟨.conflict, rfl⟩

/-- An answer that passes the checks of a decision that was accepted is marked as
late, whichever answer it is. -/
theorem passes_answered {action : Action} {request : HumanDecisionRequest}
    {decision : ResolvedHumanDecision} {attempt : AcceptanceAttempt} {time : Int}
    {row : ResolutionRow} {response : Json} (hfiled : Filed s request.decisionId)
    (hpasses : Passes sha256 dates normalize s action request decision attempt time)
    (hrow : s.resolution request.decisionId = some row) (houtcome : row.outcome = .ok response) :
    ∃ s' answer, step sha256 dates normalize s action = .ok s' ∧
      s'.resolution request.decisionId = s.resolution request.decisionId ∧
      answer.outcome = .already_resolved ∧
      ∀ attemptId, s'.answers.get? (request.decisionId, attemptId) =
        if attemptId = attempt.attemptId then some answer
        else s.answers.get? (request.decisionId, attemptId) := by
  obtain ⟨authority, hoffer, hcheck⟩ := hpasses
  obtain ⟨⟨stored, hstored, ⟨requestDigest, hvalid⟩, -⟩, -⟩ := checkAcceptance_ok hcheck
  have hread : s.readResolution sha256 normalize request.decisionId =
      .ok (some (.accepted response)) :=
    readResolution_filed hfiled hstored hvalid hrow houtcome
  obtain ⟨answer, hmarked, -, -, hanswers⟩ := answers_marked (s := s) request.decisionId attempt
    decision.acceptedAt .already_resolved none
  obtain ⟨status, hanswered⟩ := @answerResolved_accepted dates
    (s.insertAnswer request.decisionId attempt decision.acceptedAt) request attempt decision
    response
  have hstep : s.attemptAcceptance sha256 dates normalize request authority decision attempt
      time = .ok ((s.insertAnswer request.decisionId attempt
        decision.acceptedAt).markSubmission request.decisionId attempt.attemptId .already_resolved
          none, status, response) := by
    unfold attemptAcceptance
    simp only [hcheck, bind_ok, Except.ok.injEq, exists_eq_left', readResolution_insertAnswer,
      hread]
    exact ⟨.unit, trivial, hanswered⟩
  refine ⟨(s.insertAnswer request.decisionId attempt decision.acceptedAt).markSubmission
    request.decisionId attempt.attemptId .already_resolved none, answer, ?_, rfl, hmarked,
    fun attemptId => ?_⟩
  · rw [step_offer hoffer, hstep]
    rfl
  · rw [hanswers]
    simp only [Prod.mk.injEq, true_and]

/-- An answer that passes the checks of a decision that is open is accepted, unless
the effect of its acceptance was ordered before. -/
theorem passes_accepted {action : Action} {request : HumanDecisionRequest}
    {decision : ResolvedHumanDecision} {attempt : AcceptanceAttempt} {time : Int}
    (hpasses : Passes sha256 dates normalize s action request decision attempt time)
    (hopen : s.resolution request.decisionId = none)
    (heffects : s.db.effects.get? ("effect-" ++ shortDigest sha256 (.obj [("decisionId",
      .str request.decisionId), ("effectType", .str "decision.settle_presentations")])) = none) :
    ∃ s' row answer, step sha256 dates normalize s action = .ok s' ∧
      s'.db.decisions = s.db.decisions ∧ s'.deadlines = s.deadlines ∧
      s'.resolution request.decisionId = some row ∧
      row.outcome = .ok (storedJson (decision.json dates)) ∧
      (s.answers.get? (request.decisionId, attempt.attemptId) = none →
        answer.candidate = storedJson attempt.candidate) ∧
      ∀ key, s'.answers.get? key = if key = (request.decisionId, attempt.attemptId) then some answer
        else s.answers.get? key := by
  obtain ⟨authority, hoffer, hcheck⟩ := hpasses
  rw [resolution] at hopen
  have hread : s.readResolution sha256 normalize request.decisionId = .ok none := by
    rw [readResolution, hopen]
  have hinsert := fun row => Table.insert?_eq_some.2
    ⟨hopen, (rfl : s.db.resolutions.insert request.decisionId row hopen = _)⟩
  have heffect := fun row => Table.insert?_eq_some.2
    ⟨heffects, (rfl : s.db.effects.insert _ row heffects = _)⟩
  have hresolved : ∃ answer, (s.insertAnswer request.decisionId attempt
      decision.acceptedAt).resolveAccepted sha256 dates request attempt decision = .ok answer := by
    simp only [resolveAccepted, enqueueResolutionEffects, resolutionEffects, if_true,
      List.foldlM_cons, List.foldlM_nil, enqueueResolutionEffect, bind_ok, orThrow_ok, pure_ok]
    exact ⟨_, _, hinsert _, _, ⟨_, ⟨_, heffect _, rfl⟩, rfl⟩, rfl⟩
  obtain ⟨⟨s', answer⟩, hresolved⟩ := hresolved
  have haccepted : s.attemptAcceptance sha256 dates normalize request authority decision attempt
      time = .ok (s', answer) := by
    unfold attemptAcceptance
    simp only [hcheck, bind_ok, Except.ok.injEq, exists_eq_left', readResolution_insertAnswer,
      hread]
    exact ⟨.unit, trivial, hresolved⟩
  have hstep : step sha256 dates normalize s action = .ok s' := by
    rw [step_offer hoffer, haccepted]
    rfl
  obtain ⟨-, hdecisions, hdeadlines, ⟨-, ⟨_, _, hresolved, -⟩, -⟩ | ⟨-, hresolutions, hanswers⟩⟩ :=
    attemptAcceptance_ok haccepted
  · rw [hopen] at hresolved
    cases hresolved
  · obtain ⟨marked, -, -, hcandidate, hget⟩ := answers_marked (s := s) request.decisionId attempt
      decision.acceptedAt .won (some (storedJson (decision.json dates)))
    rw [← hanswers] at hget
    refine ⟨s', _, marked, hstep, hdecisions, hdeadlines, (hresolutions _).trans (if_pos rfl), rfl,
      fun hnone => ?_, hget⟩
    rw [hcandidate, hnone, Option.map_none, Option.getD_none]

/-- Without a winner nothing is marked as won. -/
theorem winnerRecorded_retried {decisionId attemptId : String} {row : ResolutionRow}
    {response : Json} {answer won : AnswerRow} (hwinner : WinnerRecorded s decisionId)
    (hrow : s.resolution decisionId = some row) (houtcome : row.outcome = .ok response)
    (hwon : s.answers.get? (decisionId, attemptId) = some won) (houtcome' : won.outcome = .won)
    (hresolution : s'.resolution decisionId = s.resolution decisionId)
    (hmarked : answer.outcome = .already_resolved)
    (hanswers : ∀ other, s'.answers.get? (decisionId, other) =
      if other = attemptId then some answer else s.answers.get? (decisionId, other)) :
    ¬ WinnerRecorded s' decisionId := by
  intro hwinner'
  obtain ⟨winner, winning, -, -, -, honly⟩ := hwinner row response hrow houtcome
  obtain rfl := honly attemptId won hwon houtcome'
  obtain ⟨winner', winning', hget, hout, -, -⟩ :=
    hwinner' row response (hresolution.trans hrow) houtcome
  rw [hanswers] at hget
  split at hget
  · obtain rfl := Option.some.inj hget
    rw [hmarked] at hout
    cases hout
  · next hne => exact hne (honly winner' winning' hget hout)

/-- Marking an answer that has not won leaves the winner alone. -/
theorem winnerRecorded_answered {decisionId attemptId : String} {answer : AnswerRow}
    (hwinner : WinnerRecorded s decisionId)
    (hnot : ∀ old, s.answers.get? (decisionId, attemptId) = some old → old.outcome ≠ .won)
    (hresolution : s'.resolution decisionId = s.resolution decisionId)
    (hmarked : answer.outcome = .already_resolved)
    (hanswers : ∀ other, s'.answers.get? (decisionId, other) =
      if other = attemptId then some answer else s.answers.get? (decisionId, other)) :
    WinnerRecorded s' decisionId := by
  intro row response hrow houtcome
  obtain ⟨winner, winning, hget, hwon, hresult, honly⟩ :=
    hwinner row response (hresolution ▸ hrow) houtcome
  have hne : winner ≠ attemptId := by
    rintro rfl
    exact hnot winning hget hwon
  refine ⟨winner, winning, (hanswers winner).trans ((if_neg hne).trans hget), hwon, hresult, ?_⟩
  intro other answer' hother hwon'
  rw [hanswers] at hother
  split at hother
  · obtain rfl := Option.some.inj hother
    rw [hmarked] at hwon'
    cases hwon'
  · exact honly other answer' hother hwon'

/-- The answer that is accepted is the only winner. -/
theorem winnerRecorded_accepted {decisionId attemptId : String} {row : ResolutionRow}
    {response : Json} {answer : AnswerRow} (hfiled : Filed s decisionId)
    (hopen : s.resolution decisionId = none) (hrow : s'.resolution decisionId = some row)
    (houtcome : row.outcome = .ok response) (hwon : answer.outcome = .won)
    (hresult : answer.result = some response)
    (hanswers : ∀ other, s'.answers.get? (decisionId, other) =
      if other = attemptId then some answer else s.answers.get? (decisionId, other)) :
    WinnerRecorded s' decisionId := by
  intro row' response' hrow' houtcome'
  obtain rfl := Option.some.inj (hrow.symm.trans hrow')
  rw [houtcome, Except.ok.injEq] at houtcome'
  subst houtcome'
  refine ⟨attemptId, answer, (hanswers attemptId).trans (if_pos rfl), hwon, hresult, ?_⟩
  intro other answer' hother hwon'
  by_contra hne
  rw [hanswers, if_neg hne] at hother
  obtain ⟨_, _, hresolved, -⟩ := hfiled.winner other answer' hother hwon'
  rw [hopen] at hresolved
  cases hresolved

theorem DecisionChange.winner {action : Action} {decisionId : String}
    (hfiled : Filed s decisionId) (hwinner : WinnerRecorded s decisionId)
    (hnot : ¬ RetriesWinner sha256 dates normalize s decisionId action)
    (h : DecisionChange sha256 dates normalize s s' decisionId action) :
    WinnerRecorded s' decisionId := by
  cases h with
  | kept hresolution hanswers =>
      intro row response hrow houtcome
      obtain ⟨attemptId, answer, hget, hwon, hresult, honly⟩ :=
        hwinner row response (hresolution ▸ hrow) houtcome
      refine ⟨attemptId, answer, (hanswers attemptId).trans hget, hwon, hresult, ?_⟩
      intro other answer' hother
      exact honly other answer' (hanswers other ▸ hother)
  | cancelled row reason _ hrow houtcome =>
      intro row' response hrow' houtcome'
      obtain rfl := Option.some.inj (hrow.symm.trans hrow')
      rw [houtcome] at houtcome'
      cases houtcome'
  | accepted _ _ _ _ _ _ _ _ hopen hrow houtcome _ hwon hresult hanswers =>
      exact winnerRecorded_accepted hfiled hopen hrow houtcome hwon hresult hanswers
  | answered request decision attempt time _ _ _ hpasses hid hrow houtcome hresolution hmarked
      hanswers =>
      refine winnerRecorded_answered hwinner ?_ hresolution hmarked hanswers
      intro old hold hwon
      exact hnot ⟨request, decision, attempt, time, old, hpasses, hid, hold, hwon⟩

/-- One call keeps the record of the winner exactly if it does not retry the winner. -/
theorem serve_winner_iff {decisionId : String} (hfiled : Filed s decisionId)
    (hwinner : WinnerRecorded s decisionId) (action : Action) :
    WinnerRecorded (Trace.serve (step sha256 dates normalize) s action) decisionId ↔
      ¬ RetriesWinner sha256 dates normalize s decisionId action := by
  constructor
  · rintro hserved ⟨request, decision, attempt, time, won, hpasses, rfl, hwon, houtcome⟩
    obtain ⟨row, response, hrow, hresponse⟩ := hfiled.winner attempt.attemptId won hwon houtcome
    obtain ⟨s', answer, hstep, hresolution, hmarked, hanswers⟩ :=
      passes_answered hfiled hpasses hrow hresponse
    rw [Trace.serve, hstep] at hserved
    exact winnerRecorded_retried hwinner hrow hresponse hwon houtcome hresolution hmarked hanswers
      hserved
  · intro hnot
    unfold Trace.serve
    split
    · next s' hstep => exact (step_change hfiled hstep).2.2.winner hfiled hwinner hnot
    · exact hwinner

/-! ## Deadlines -/

/-- A human answers up to the deadline, a policy from the deadline on. -/
def InTime (time : Int) (deadline : Option Int) : AnswerSource → Prop
  | .human => ∀ limit, deadline = some limit → time ≤ limit
  | .policy => ∃ limit, deadline = some limit ∧ limit ≤ time

/-- `decision.provenance` of an answer. -/
def provenanceOf : AnswerSource → String
  | .human => "human"
  | .policy => "timeout"

/-- Whose answer a call brings, and the time it is judged by. -/
def arbitration : Action → Option (AnswerSource × Int)
  | .accept _ _ clock => some (.human, clock.arbitratedAt)
  | .resolveTimeout _ _ now => some (.policy, now)
  | .createRequest _ | .cancel _ _ _ _ | .cancelWorkflowRun _ _ _ | .elsewhere _ => none

/-- The call brings the response of the decision, in time. -/
def AnsweredInTime (s : HumanDecisionStore) (decisionId : String) (action : Action)
    (response : Json) : Prop :=
  ∃ source time deadline, arbitration action = some (source, time) ∧
    textMember response "provenance" = some (provenanceOf source) ∧
    s.deadlines.get? decisionId = some deadline ∧ InTime time deadline source

theorem offers_source {action : Action} {request : HumanDecisionRequest}
    {authority : Option RunWriteAuthority} {decision : ResolvedHumanDecision}
    {attempt : AcceptanceAttempt} {time : Int}
    (h : Offers sha256 dates normalize s action request authority decision attempt time) :
    arbitration action = some (attempt.source, time) ∧
      textMember (decision.json dates) "provenance" = some (provenanceOf attempt.source) := by
  cases h with
  | human h =>
      simp only [humanAnswer, bind_ok, pure_ok, Prod.mk.injEq] at h
      obtain ⟨_, -, _, -, _, -, rfl, rfl⟩ := h
      exact ⟨rfl, rfl⟩
  | policy h =>
      simp only [policyAnswer, bind_ok, pure_ok, Prod.mk.injEq] at h
      obtain ⟨_, -, _, -, _, -, _, -, _, -, _, -, rfl, rfl⟩ := h
      exact ⟨rfl, rfl⟩

theorem passes_inTime {action : Action} {request : HumanDecisionRequest}
    {decision : ResolvedHumanDecision} {attempt : AcceptanceAttempt} {time : Int}
    (h : Passes sha256 dates normalize s action request decision attempt time) :
    AnsweredInTime s request.decisionId action (storedJson (decision.json dates)) := by
  obtain ⟨authority, hoffer, hcheck⟩ := h
  obtain ⟨harbitration, hprovenance⟩ := offers_source hoffer
  obtain ⟨-, deadline, hdeadline, hhuman, hpolicy⟩ := checkAcceptance_ok hcheck
  refine ⟨attempt.source, time, deadline, harbitration, ?_, hdeadline, ?_⟩
  · rw [textMember_storedJson, hprovenance]
  · cases hsource : attempt.source with
    | human =>
        rintro limit rfl
        exact of_decide_eq_true (hhuman hsource)
    | policy =>
        cases deadline with
        | none => cases hpolicy hsource
        | some limit => exact ⟨limit, rfl, of_decide_eq_true (hpolicy hsource)⟩

/-! ## Runs -/

/-- Nothing was said of the decision yet. -/
structure Untouched (s : HumanDecisionStore) (decisionId : String) : Prop where
  request : s.db.decisions.get? decisionId = none
  resolution : s.resolution decisionId = none
  answers : ∀ attemptId, s.answers.get? (decisionId, attemptId) = none

theorem Untouched.filed {decisionId : String} (h : Untouched s decisionId) :
    Filed s decisionId where
  request := by
    intro row hrow
    rw [h.request] at hrow
    cases hrow
  resolution := by
    intro row hrow
    rw [h.resolution] at hrow
    cases hrow
  winner := by
    intro attemptId answer hanswer
    rw [h.answers] at hanswer
    cases hanswer

theorem Untouched.winner {decisionId : String} (h : Untouched s decisionId) :
    WinnerRecorded s decisionId := by
  intro row response hrow
  rw [h.resolution] at hrow
  cases hrow

theorem step_filed {action : Action} {decisionId : String} (hfiled : Filed s decisionId)
    (h : step sha256 dates normalize s action = .ok s') : Filed s' decisionId := by
  obtain ⟨hrequest, -, hchange⟩ := step_change hfiled h
  exact hchange.filed hfiled hrequest

theorem run_filed {decisionId : String} (h : Filed s decisionId) (actions : List Action) :
    Filed (s.run sha256 dates normalize actions) decisionId :=
  Trace.served_invariant (fun _ _ _ hs hstep => step_filed hs hstep) h actions

theorem run_append (first second : List Action) :
    s.run sha256 dates normalize (first ++ second) =
      (s.run sha256 dates normalize first).run sha256 dates normalize second :=
  Trace.served_append _ _ _ _

/-- What was resolved stays resolved in the same way, and the deadline stays. -/
structure Settled (decisionId : String) (s s' : HumanDecisionStore) : Prop where
  resolution : ∀ row, s.resolution decisionId = some row → s'.resolution decisionId = some row
  deadline : ∀ deadline, s.deadlines.get? decisionId = some deadline →
    s'.deadlines.get? decisionId = some deadline

theorem Settled.refl (decisionId : String) (s : HumanDecisionStore) : Settled decisionId s s :=
  ⟨fun _ hrow => hrow, fun _ hdeadline => hdeadline⟩

theorem Settled.trans {decisionId : String} {s s' s'' : HumanDecisionStore}
    (h : Settled decisionId s s') (h' : Settled decisionId s' s'') :
    Settled decisionId s s'' where
  resolution := fun row hrow => h'.resolution row (h.resolution row hrow)
  deadline := fun deadline hdeadline => h'.deadline deadline (h.deadline deadline hdeadline)

theorem DecisionChange.resolution_kept {action : Action} {decisionId : String}
    (h : DecisionChange sha256 dates normalize s s' decisionId action) (row : ResolutionRow)
    (hrow : s.resolution decisionId = some row) : s'.resolution decisionId = some row := by
  cases h with
  | kept hresolution | answered _ _ _ _ _ _ _ _ _ _ _ hresolution =>
      exact hresolution.trans hrow
  | cancelled _ _ hopen | accepted _ _ _ _ _ _ _ _ hopen =>
      rw [hopen] at hrow
      cases hrow

theorem run_settled {decisionId : String} (h : Filed s decisionId) (actions : List Action) :
    Settled decisionId s (s.run sha256 dates normalize actions) := by
  refine Trace.served_related (Settled.refl decisionId) Settled.trans
    (fun _ _ _ hs hstep => step_filed hs hstep) ?_ h actions
  intro s action s' hs hstep
  obtain ⟨-, hdeadline, hchange⟩ := step_change hs hstep
  exact ⟨hchange.resolution_kept, hdeadline⟩

/-- The call that resolves a decision by an answer brings it in time. -/
theorem serve_inTime {action : Action} {decisionId : String} {row : ResolutionRow}
    {response : Json} (hfiled : Filed s decisionId) (hopen : s.resolution decisionId = none)
    (hrow : (Trace.serve (step sha256 dates normalize) s action).resolution decisionId = some row)
    (houtcome : row.outcome = .ok response) : AnsweredInTime s decisionId action response := by
  unfold Trace.serve at hrow
  split at hrow
  · next s' hstep =>
      cases (step_change hfiled hstep).2.2 with
      | kept hresolution | answered _ _ _ _ _ _ _ _ _ _ _ hresolution =>
          rw [hresolution, hopen] at hrow
          cases hrow
      | cancelled row' _ _ hrow' houtcome' =>
          obtain rfl := Option.some.inj (hrow'.symm.trans hrow)
          rw [houtcome'] at houtcome
          cases houtcome
      | accepted request decision attempt time row' _ hpasses hid _ hrow' houtcome' =>
          subst hid
          obtain rfl := Option.some.inj (hrow'.symm.trans hrow)
          rw [houtcome', Except.ok.injEq] at houtcome
          exact houtcome ▸ passes_inTime hpasses
  · rw [hopen] at hrow
    cases hrow

/-- A run in which one decision is arbitrated as it should be. -/
structure Arbitrated (sha256 : String → String) (dates : HostDates)
    (normalize : Json → Except String Json) (s : HumanDecisionStore) (decisionId : String)
    (actions : List Action) : Prop where
  settled : ∀ before after, before ++ after = actions →
    Settled decisionId (s.run sha256 dates normalize before) (s.run sha256 dates normalize actions)
  inTime : ∀ before action after, before ++ action :: after = actions → ∀ row response,
    (s.run sha256 dates normalize before).resolution decisionId = none →
    (s.run sha256 dates normalize (before ++ [action])).resolution decisionId = some row →
    row.outcome = .ok response →
      AnsweredInTime (s.run sha256 dates normalize before) decisionId action response
  winner : ∀ before after, before ++ after = actions →
    WinnerRecorded (s.run sha256 dates normalize before) decisionId

/-- The decision is resolved at most once and in time on any run. The record of its
winner is right in every state of the run exactly if the winner is not retried. -/
theorem decisionRun_arbitrated_iff {decisionId : String} (h : Untouched s decisionId)
    (actions : List Action) :
    Arbitrated sha256 dates normalize s decisionId actions ↔
      ∀ before action after, before ++ action :: after = actions →
        ¬ RetriesWinner sha256 dates normalize (s.run sha256 dates normalize before) decisionId
          action := by
  have hserve : ∀ before action, s.run sha256 dates normalize (before ++ [action]) =
      Trace.serve (step sha256 dates normalize) (s.run sha256 dates normalize before) action :=
    fun before action => run_append before [action]
  constructor
  · intro harbitrated before action after hactions
    refine (serve_winner_iff (run_filed h.filed before)
      (harbitrated.winner before (action :: after) hactions) action).1 ?_
    rw [← hserve]
    exact harbitrated.winner (before ++ [action]) after ((List.append_cons ..).symm.trans hactions)
  · intro hretries
    refine ⟨?_, ?_, ?_⟩
    · rintro before after rfl
      rw [run_append]
      exact run_settled (run_filed h.filed before) after
    · intro before action after hactions row response hopen hrow
      rw [hserve] at hrow
      exact serve_inTime (run_filed h.filed before) hopen hrow
    · intro before
      -- One more call at a time, none of which retries the winner.
      induction before using List.reverseRecOn with
      | nil => exact fun _ _ => h.winner
      | append_singleton before action ih =>
          intro after hactions
          have hsplit : before ++ action :: after = actions :=
            (List.append_cons ..).trans hactions
          rw [hserve]
          exact (serve_winner_iff (run_filed h.filed before) (ih (action :: after) hsplit)
            action).2 (hretries before action after hsplit)

/-! ## A winner that is retried -/

def goPresentation : Json :=
  .obj [("blocks", .arr []), ("schema", .str "pi-workflows.decision-presentation.v1"),
    ("summary", .str "Go on?")]

/-- A question with one choice and no deadline, before it is signed. -/
def goDraft : HumanDecisionRequest :=
  { decisionId := "decision", requestDigest := "", runId := "run", workflowName := "demo"
    nodeId := "ask", attemptId := "attempt", audience := "operator", title := "Go on?"
    choices := [("go", { label := "Go" })], createdAt := "2026-01-01T00:00:00.000Z"
    subject := .null, presentation := goPresentation, revision := 1
    subjectDigest := digestCanonical id .null
    presentationDigest := digestCanonical id goPresentation }

def goRequest : HumanDecisionRequest :=
  { goDraft with requestDigest := digestCanonical id (requestBasis goDraft.json goPresentation) }

def hostDates : HostDates := ⟨fun _ => none, fun time => toString time⟩

theorem goRequest_basis {request : Json}
    (h : request = goRequest.json ∨ request = storedJson goRequest.json) :
    request.member? "subject" = some .null ∧ request.member? "presentation" = some goPresentation ∧
      requestBasis request goPresentation = requestBasis goDraft.json goPresentation := by
  rcases h with rfl | rfl
  · exact ⟨rfl, rfl, rfl⟩
  · exact ⟨rfl, rfl, rfl⟩

theorem goRequest_valid {request : Json}
    (h : request = goRequest.json ∨ request = storedJson goRequest.json) :
    validateHumanDecisionRequestIntegrity id .ok request = .ok goRequest.requestDigest := by
  obtain ⟨hsubject, hpresentation, hbasis⟩ := goRequest_basis h
  have htext : ∀ key, textMember request key = textMember goRequest.json key := by
    rcases h with rfl | rfl
    · exact fun _ => rfl
    · exact fun key => textMember_storedJson _ key
  simp only [validateHumanDecisionRequestIntegrity, bind_ok, require_ok, orThrow_ok, pure_ok, htext]
  refine ⟨.unit, ⟨rfl, ?_⟩, .null, hsubject, goPresentation, hpresentation, goPresentation, rfl,
    .unit, rfl, .unit, rfl, .unit, ?_, ?_⟩
  · rcases h with rfl | rfl
    · decide
    · decide
  · rw [hbasis]
    rfl
  · rw [hbasis]
    rfl

/-- A run that waits in an attempt. -/
def waitingDb : Db :=
  { Db.empty with
    runs := Table.empty.insert "run"
      { status := .waiting, updatedAt := 0, workflowName := "demo", workflowRef := "demo"
        workflowSource := .null, definitionDigest := "", input := .null, launchOptions := .null
        rootRunId := "run", revision := 1 } rfl
    attempts := Table.empty.insert "attempt"
      { runId := "run", nodeId := "ask", attemptNumber := 1, status := .waiting, updatedAt := 0 }
      rfl }

def waitingStore : HumanDecisionStore := ⟨waitingDb, .empty, .empty⟩

def askedStore : HumanDecisionStore :=
  { waitingStore with
    db := { waitingDb with
      decisions := Table.empty.insert "decision"
        ⟨"run", "attempt", storedJson goRequest.json, goRequest.requestDigest⟩ rfl }
    deadlines := Table.empty.insert "decision" none rfl }

theorem createRequest_go :
    step id hostDates .ok waitingStore (.createRequest goRequest) = .ok askedStore := by
  simp only [step, createRequest, createDecision, goRequest_valid (.inl rfl)]
  rfl

def goSubmission : HumanDecisionSubmission :=
  ⟨"decision", goRequest.requestDigest, [("choice", .str "go")], ⟨"pi", "operator", "event"⟩, "key"⟩

def goDecision : ResolvedHumanDecision :=
  { decisionId := "decision", requestDigest := goRequest.requestDigest, response := ⟨"go", none⟩
    provenance := .human ⟨"pi", "operator", "event"⟩ "key", acceptedAt := 1
    answerDigest := digest id (.obj [("requestDigest", .str goRequest.requestDigest),
      ("response", .obj [("choice", .str "go")]), ("source", goSubmission.source.json)])
    subjectDigest := goRequest.subjectDigest
    presentationDigest := goRequest.presentationDigest, revision := 1 }

def goAttempt : AcceptanceAttempt :=
  { attemptId := answerAttemptId id "decision" "key", source := .human
    actorId := some "operator", channel := some "pi", candidate := goSubmission.json }

theorem humanAnswer_go :
    humanAnswer id hostDates .ok goRequest goSubmission ⟨1, 1, 1⟩ =
      .ok (goDecision, goAttempt) := by
  have hsubmission :
      validateHumanDecisionSubmission hostDates goRequest goSubmission 1 = .ok goSubmission := by
    simp only [validateHumanDecisionSubmission, bind_ok, require_ok, pure_ok]
    exact ⟨.unit, ⟨rfl, rfl⟩, .unit, rfl, ⟨"go", none⟩, rfl, "pi", rfl, "operator", rfl, "event",
      rfl, "key", rfl, rfl⟩
  simp only [humanAnswer, goRequest_valid (.inl rfl), hsubmission]
  rfl

/-- The answer passes the checks as long as its key is used for nothing else. -/
theorem checkAcceptance_go (hdecisions : s.db.decisions = askedStore.db.decisions)
    (hdeadlines : s.deadlines = askedStore.deadlines)
    (hanswers : ∀ answer, s.answers.get? ("decision", goAttempt.attemptId) = some answer →
      answer.candidate = storedJson goSubmission.json) :
    s.checkAcceptance id .ok goRequest none goAttempt 1 = .ok .unit := by
  simp only [checkAcceptance, requireStoredRequest, bind_ok, require_ok, orThrow_ok, onlyIf_ok]
  refine ⟨.unit, ⟨⟨"run", "attempt", storedJson goRequest.json, goRequest.requestDigest⟩, ?_,
    goRequest.requestDigest, ?_, ?_⟩, none, ?_, .unit, fun _ => rfl, .unit,
    by rintro ⟨⟩, .unit, by rintro ⟨⟩, ?_⟩
  · rw [hdecisions]
    rfl
  · exact goRequest_valid (.inr rfl)
  · exact canonicalJson_eq_iff_same.2 (sameJson_normalize goRequest.json)
  · rw [hdeadlines]
    rfl
  · rw [Option.all_eq_true]
    intro answer hanswer
    rw [decide_eq_true_eq, hanswers answer hanswer]
    exact canonicalJson_eq_iff_same.2 (sameJson_normalize goSubmission.json)

def goAccept : Action := .accept goRequest goSubmission ⟨1, 1, 1⟩

theorem goAccept_offers (s : HumanDecisionStore) :
    Offers id hostDates .ok s goAccept goRequest none goDecision goAttempt 1 :=
  .human humanAnswer_go

theorem goAccept_passes :
    Passes id hostDates .ok askedStore goAccept goRequest goDecision goAttempt 1 :=
  ⟨none, goAccept_offers askedStore, checkAcceptance_go rfl rfl nofun⟩

theorem run_ask : waitingStore.run id hostDates .ok [.createRequest goRequest] = askedStore := by
  rw [run, Trace.served_cons, Trace.served_nil, Trace.serve, createRequest_go]

theorem waitingStore_untouched : Untouched waitingStore "decision" := ⟨rfl, rfl, fun _ => rfl⟩

/-- Answered once, the decision is arbitrated as it should be. -/
theorem answeredOnce_arbitrated :
    Arbitrated id hostDates .ok waitingStore "decision" [.createRequest goRequest, goAccept] := by
  refine (decisionRun_arbitrated_iff waitingStore_untouched _).2 ?_
  rintro before action after hactions
    ⟨request, decision, attempt, time, answer, ⟨_, hoffer, -⟩, -, hget, -⟩
  match before with
  | [] =>
      cases hactions
      cases hoffer
  | [first] =>
      obtain ⟨rfl, -⟩ := List.cons.inj hactions
      rw [run_ask] at hget
      cases hget
  | first :: second :: rest =>
      have hlength := congrArg List.length hactions
      simp at hlength

/-- The answer that won, sent again: the decision stays accepted, and no answer is
marked as won any more. -/
theorem retriedAnswer_unmarked :
    let retried := waitingStore.run id hostDates .ok
      [.createRequest goRequest, goAccept, goAccept]
    ∃ row response, retried.resolution "decision" = some row ∧ row.outcome = .ok response ∧
      ∀ attemptId answer, retried.answers.get? ("decision", attemptId) = some answer →
        answer.outcome ≠ .won := by
  obtain ⟨s₁, row, won, hstep, hdecisions, hdeadlines, hrow, houtcome, hcandidate, hanswers⟩ :=
    passes_accepted goAccept_passes rfl rfl
  have hfiled : Filed s₁ "decision" :=
    step_filed (run_ask ▸ run_filed waitingStore_untouched.filed _) hstep
  have hpasses : Passes id hostDates .ok s₁ goAccept goRequest goDecision goAttempt 1 := by
    refine ⟨none, goAccept_offers s₁, checkAcceptance_go hdecisions hdeadlines ?_⟩
    intro answer hanswer
    rw [hanswers] at hanswer
    have hwon : some won = some answer := (if_pos rfl).symm.trans hanswer
    exact Option.some.inj hwon ▸ hcandidate rfl
  obtain ⟨s₂, late, hretry, hresolution, hmarked, hlate⟩ :=
    passes_answered hfiled hpasses hrow houtcome
  have hrun : waitingStore.run id hostDates .ok [.createRequest goRequest, goAccept, goAccept] =
      s₂ := by
    rw [run, Trace.served_cons, Trace.serve_of_ok createRequest_go, Trace.served_cons,
      Trace.serve_of_ok hstep, Trace.served_cons, Trace.serve_of_ok hretry, Trace.served_nil]
  intro retried
  rw [show retried = s₂ from hrun]
  refine ⟨row, _, hresolution.trans hrow, houtcome, fun attemptId answer hanswer hout => ?_⟩
  have hget := (hlate attemptId).symm.trans hanswer
  split at hget
  · obtain rfl := Option.some.inj hget
    rw [hmarked] at hout
    cases hout
  · next hne =>
      rw [hanswers, if_neg fun heq => hne (congrArg Prod.snd heq)] at hget
      cases hget

end HumanDecisionStore

end PiWorkflows
