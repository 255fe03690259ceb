import PiWorkflows.Builtins.ChangeVerification
import PiWorkflows.Proofs.ValueText

/-!
# What a classification says of a check

Each check has one finding at most, so it is in one list at most, and no check
that did not pass on the candidate is without one. Two findings are not about a
check of the list: the one about the temporary worktree and the one about a
rejected fixer carry names of their own, which the list of checks may use as
well (`ReservedId`).

Equal fingerprints mean equal failures: the digest tells texts apart, and the
text of the source of a fingerprint tells the sources apart.
-/

namespace PiWorkflows.ChangeVerification

open Function

/-! ## The source of a fingerprint -/

theorem ofInt_injective : Injective JsNumber.ofInt := by
  intro a b h
  have htext : (JsNumber.ofInt a).text.toList = (JsNumber.ofInt b).text.toList :=
    congrArg (fun n => n.text.toList) h
  have hsign : ∀ n : Nat, ∀ rest : List Char, n.repr.toList ≠ '-' :: rest := by
    intro n rest hn
    rw [Nat.toList_repr] at hn
    have hdigit := Nat.isDigit_of_mem_toDigits (b := 10) (n := n) (by decide) (by decide)
      (hn ▸ List.mem_cons_self)
    exact absurd hdigit (by decide)
  cases a with
  | ofNat n =>
      cases b with
      | ofNat m => exact congrArg Int.ofNat (natRepr_inj (String.toList_injective htext))
      | negSucc m =>
          rw [show (JsNumber.ofInt (.negSucc m)).text = "-" ++ (m + 1).repr from rfl,
            String.toList_append] at htext
          exact absurd htext (hsign n _)
  | negSucc n =>
      cases b with
      | ofNat m =>
          rw [show (JsNumber.ofInt (.negSucc n)).text = "-" ++ (n + 1).repr from rfl,
            String.toList_append] at htext
          exact absurd htext.symm (hsign m _)
      | negSucc m =>
          rw [show (JsNumber.ofInt (.negSucc n)).text = "-" ++ (n + 1).repr from rfl,
            show (JsNumber.ofInt (.negSucc m)).text = "-" ++ (m + 1).repr from rfl,
            String.toList_append, String.toList_append] at htext
          have hrepr := natRepr_inj (String.toList_injective (List.append_cancel_left htext))
          exact congrArg Int.negSucc (by omega)

theorem outcome_text_injective : Injective CommandBatchItemOutcome.text := by
  intro a b h
  revert h
  cases a <;> cases b <;> decide

theorem textTree_injective : Injective textTree := fun _ _ h =>
  units_injective (JsTree.str.inj h)

theorem exitCodeTree_injective : Injective exitCodeTree := by
  intro a b h
  cases a with
  | none =>
      cases b with
      | none => rfl
      | some m => cases h
  | some n =>
      cases b with
      | none => cases h
      | some m => exact congrArg some (ofInt_injective (JsTree.num.inj h))

theorem signalTree_injective : Injective signalTree := by
  intro a b h
  cases a with
  | none =>
      cases b with
      | none => rfl
      | some m => cases h
  | some n =>
      cases b with
      | none => cases h
      | some m => exact congrArg some (textTree_injective h)

/-- An object that names no member twice and none like an index is listed as it stands. -/
theorem proper_obj {members : List (CodeUnits × JsTree)} {names : List CodeUnits}
    (heq : members.map Prod.fst = names) (hnodup : names.Nodup)
    (hnames : ∀ name ∈ names, arrayIndex name = none)
    (hvalues : ∀ e ∈ members, e.2.Proper) : (JsTree.obj members).Proper := by
  rw [JsTree.Proper]
  refine ⟨heq ▸ hnodup, ?_, properEntries_iff.2 hvalues⟩
  have hnone : ∀ e ∈ members, arrayIndex e.1 = none := fun e he =>
    hnames e.1 (heq ▸ List.mem_map_of_mem he)
  have hsome : members.filter (fun e => (arrayIndex e.1).isSome) = [] :=
    List.filter_eq_nil_iff.2 fun e he => by rw [hnone e he]; exact Bool.false_ne_true
  have hrest : members.filter (fun e => (arrayIndex e.1).isNone) = members :=
    List.filter_eq_self.2 fun e he => by rw [hnone e he]; rfl
  rw [enumerated, hsome, hrest]
  rfl

theorem proper_textTree (text : String) : (textTree text).Proper := by
  simp [textTree, JsTree.Proper]

theorem proper_exitCodeTree (code : Option Int) : (exitCodeTree code).Proper := by
  cases code <;> simp [exitCodeTree, JsTree.Proper]

theorem proper_signalTree (signal : Option String) : (signalTree signal).Proper := by
  cases signal with
  | none => simp [signalTree, JsTree.Proper]
  | some text => exact proper_textTree text

theorem proper_fingerprintSource (result : CommandBatchItemResult) (check : VerificationCheck)
    (basePath candidatePath : String) :
    (fingerprintSource result check basePath candidatePath).Proper := by
  have hbool : ∀ b, (JsTree.bool b).Proper := fun b => by simp [JsTree.Proper]
  unfold fingerprintSource
  split
  · let names := ["outcome", "exitCode", "signal", "stdout", "stderr", "stdoutTruncated",
      "stderrTruncated"].map units
    refine proper_obj (show _ = names from rfl) (by decide) (by decide) ?_
    simp [proper_textTree, proper_exitCodeTree, proper_signalTree, hbool]
  · next ids hids =>
    have hitems : (JsTree.arr (ids.map .str)).Proper := by
      rw [JsTree.Proper, properTrees_iff]
      simp [JsTree.Proper]
    let names := ["outcome", "exitCode", "ids"].map units
    refine proper_obj (show _ = names from rfl) (by decide) (by decide) ?_
    simp [proper_textTree, proper_exitCodeTree, hitems]

/-- The two results of a check agree in everything a fingerprint keeps of them. -/
def SameFailure (check : VerificationCheck) (basePath candidatePath : String)
    (candidate base : CommandBatchItemResult) : Prop :=
  candidate.outcome = base.outcome ∧ candidate.exitCode = base.exitCode ∧
    ((∃ ids, stableFindings candidate check.findingFormat = some ids ∧
        stableFindings base check.findingFormat = some ids) ∨
      (candidate.signal = base.signal ∧
        normalizeText candidate.stdout candidatePath candidatePath =
          normalizeText base.stdout basePath candidatePath ∧
        normalizeText candidate.stderr candidatePath candidatePath =
          normalizeText base.stderr basePath candidatePath))

theorem sameFailure_of_source {check : VerificationCheck} {basePath candidatePath : String}
    {candidate base : CommandBatchItemResult}
    (h : fingerprintSource candidate check candidatePath candidatePath =
      fingerprintSource base check basePath candidatePath) :
    SameFailure check basePath candidatePath candidate base := by
  have hids : units "ids" ≠ units "signal" := by decide
  unfold fingerprintSource at h
  cases hcandidate : stableFindings candidate check.findingFormat with
  | none =>
      cases hbase : stableFindings base check.findingFormat with
      | none =>
          rw [hcandidate, hbase] at h
          simp only [JsTree.obj.injEq, List.cons.injEq, Prod.mk.injEq, true_and, and_true] at h
          obtain ⟨houtcome, hcode, hsignal, hstdout, hstderr, -, -⟩ := h
          exact ⟨outcome_text_injective (textTree_injective houtcome),
            exitCodeTree_injective hcode, .inr ⟨signalTree_injective hsignal,
              textTree_injective hstdout, textTree_injective hstderr⟩⟩
      | some ids =>
          rw [hcandidate, hbase] at h
          simp [hids.symm] at h
  | some ids =>
      cases hbase : stableFindings base check.findingFormat with
      | none =>
          rw [hcandidate, hbase] at h
          simp [hids] at h
      | some ids' =>
          rw [hcandidate, hbase] at h
          simp only [JsTree.obj.injEq, List.cons.injEq, Prod.mk.injEq, true_and, and_true,
            JsTree.arr.injEq] at h
          obtain ⟨houtcome, hcode, hlist⟩ := h
          have hstr : Injective JsTree.str := fun _ _ hs => JsTree.str.inj hs
          exact ⟨outcome_text_injective (textTree_injective houtcome),
            exitCodeTree_injective hcode, .inl ⟨ids, hcandidate, by rw [hbase, hstr.list_map hlist]⟩⟩

/-! ## The finding of a check -/

section

variable {sha256 : String → String} {input : ChangeVerificationInput} {state : ExecutionState}

/-- The digest tells the failures of a check apart. -/
theorem sameFailure_of_fingerprint (hsha : Injective sha256) {check : VerificationCheck}
    {basePath candidatePath : String} {candidate base : CommandBatchItemResult}
    (h : resultFingerprint sha256 (some candidate) check candidatePath candidatePath =
      resultFingerprint sha256 (some base) check basePath candidatePath) :
    SameFailure check basePath candidatePath candidate base :=
  sameFailure_of_source (text_inj (proper_fingerprintSource _ _ _ _)
    (proper_fingerprintSource _ _ _ _) (hsha h))

theorem comparedFinding_cases {check : VerificationCheck}
    {candidateResult baseResult : CommandBatchItemResult}
    {candidateFingerprint baseFingerprint : String} {found : VerificationFinding}
    (h : comparedFinding check candidateResult baseResult candidateFingerprint baseFingerprint =
      some found) :
    found.checkId = check.id ∧ found.kind ≠ .untested ∧
      (found.kind = .unrelated → resultPassed (some candidateResult) = false ∧
        resultPassed (some baseResult) = false ∧ candidateFingerprint = baseFingerprint) := by
  unfold comparedFinding at h
  simp only [] at h
  split at h
  · cases h
    simp [finding]
  · split at h
    · cases h
      simp [finding]
    · split at h
      · next hsame =>
        cases h
        simpa [finding, and_assoc] using hsame
      · split at h
        · cases h
          simp [finding]
        · cases h

theorem comparedFinding_failed {check : VerificationCheck}
    {candidateResult baseResult : CommandBatchItemResult}
    {candidateFingerprint baseFingerprint : String}
    (hfailed : resultPassed (some candidateResult) = false) :
    ∃ found, comparedFinding check candidateResult baseResult candidateFingerprint
        baseFingerprint = some found ∧
      (found.kind = .related ∨ found.kind = .unrelated ∨ found.kind = .unknown) := by
  unfold comparedFinding
  simp only [hfailed, Bool.false_and, Bool.false_eq_true, if_false, Bool.not_false, Bool.true_and]
  split
  · exact ⟨_, rfl, .inl rfl⟩
  · split
    · exact ⟨_, rfl, .inr (.inl rfl)⟩
    · next hpass hsame =>
      rw [if_pos (by simpa using hpass)]
      exact ⟨_, rfl, .inr (.inr rfl)⟩

/-- What the finding of a check says, one branch after the other. -/
theorem checkFinding_cases {check : VerificationCheck} {found : VerificationFinding}
    (h : checkFinding sha256 input state check = some found) :
    found.checkId = check.id ∧ found.kind ≠ .untested ∧
      (found.kind = .unrelated → ∃ candidate base,
        resultOf state.candidate.items check.id = some candidate ∧
        resultOf state.base.items check.id = some base ∧
        resultComplete candidate = true ∧ resultComplete base = true ∧
        resultPassed (some candidate) = false ∧ resultPassed (some base) = false ∧
        resultFingerprint sha256 (some candidate) check (candidateRoot input.workspace)
            (candidateRoot input.workspace) =
          resultFingerprint sha256 (some base) check (baseRoot input state)
            (candidateRoot input.workspace)) := by
  unfold checkFinding at h
  simp only [] at h
  split at h
  · cases h
    simp [finding]
  · next candidate hcandidate =>
    obtain ⟨hcandidate, hcomplete⟩ := Option.filter_eq_some_iff.1 hcandidate
    split at h
    · split at h
      · cases h
      · cases h
        simp [finding]
    · split at h
      · split at h
        · cases h
        · cases h
          simp [finding]
      · next base hbase =>
        obtain ⟨hbase, hbaseComplete⟩ := Option.filter_eq_some_iff.1 hbase
        obtain ⟨hid, hkind, hunrelated⟩ := comparedFinding_cases h
        refine ⟨hid, hkind, fun hk => ?_⟩
        obtain ⟨hcandidateFailed, hbaseFailed, hsame⟩ := hunrelated hk
        rw [hcandidate, hbase] at hsame
        exact ⟨candidate, base, hcandidate, hbase, hcomplete, hbaseComplete, hcandidateFailed,
          hbaseFailed, hsame⟩

/-- No check that did not pass on the candidate is without a finding. -/
theorem checkFinding_failed {check : VerificationCheck}
    (hfailed : resultPassed (resultOf state.candidate.items check.id) = false) :
    ∃ found, checkFinding sha256 input state check = some found ∧
      (found.kind = .related ∨ found.kind = .unrelated ∨ found.kind = .unknown) := by
  unfold checkFinding
  simp only []
  split
  · exact ⟨_, rfl, .inr (.inr rfl)⟩
  · next candidate hcandidate =>
    obtain ⟨hcandidate, -⟩ := Option.filter_eq_some_iff.1 hcandidate
    rw [hcandidate] at hfailed
    split
    · rw [if_neg (by simp [hfailed])]
      exact ⟨_, rfl, .inr (.inr rfl)⟩
    · split
      · rw [if_neg (by simp [hfailed])]
        exact ⟨_, rfl, .inr (.inr rfl)⟩
      · exact comparedFinding_failed hfailed

theorem mem_findingsOf {kind : FindingKind} {found : VerificationFinding} :
    found ∈ findingsOf sha256 input state kind ↔
      ∃ check ∈ state.checks, checkFinding sha256 input state check = some found ∧
        found.kind = kind := by
  rw [findingsOf, List.mem_filter, List.mem_filterMap]
  simp only [decide_eq_true_eq, ← and_assoc, exists_and_right]

/-! ## What is listed -/

/-- Some finding of the list carries the name of a check. -/
def Listed (findings : List VerificationFinding) (id : String) : Prop :=
  ∃ found ∈ findings, found.checkId = id

/-- The lists that a check may be in. -/
def ChangeVerificationResult.lists (result : ChangeVerificationResult) :
    List (List VerificationFinding) :=
  [result.relatedFailures, result.unrelatedFailures, result.fixedBaselineFailures,
    result.unknownFailures]

/-- The check has the name of a finding that is not about it. -/
def ReservedId (state : ExecutionState) (id : String) : Prop :=
  (id = "base-cleanup" ∧ cleanupFailed state.cleanupEvidence = true) ∨
    (id = "mechanical-fix-boundary" ∧ (rejectedRepair state.repairAttempts).isSome = true)

/-- Where the names are distinct, what is listed under the name of a check is its finding. -/
theorem listed_findingsOf (hdistinct : (state.checks.map VerificationCheck.id).Nodup)
    {check : VerificationCheck} (hcheck : check ∈ state.checks) {kind : FindingKind} :
    Listed (findingsOf sha256 input state kind) check.id ↔
      ∃ found, checkFinding sha256 input state check = some found ∧ found.kind = kind := by
  constructor
  · intro hlisted
    obtain ⟨found, hmem, hid⟩ := hlisted
    obtain ⟨other, hother, hfound, hkind⟩ := mem_findingsOf.1 hmem
    have hsame : other = check := List.inj_on_of_nodup_map hdistinct hother hcheck
      ((checkFinding_cases hfound).1.symm.trans hid)
    exact ⟨found, hsame ▸ hfound, hkind⟩
  · intro hfinding
    obtain ⟨found, hfound, hkind⟩ := hfinding
    exact ⟨found, mem_findingsOf.2 ⟨check, hcheck, hfound, hkind⟩, (checkFinding_cases hfound).1⟩

/-- The name of a finding that is not about a check is a reserved one. -/
theorem listed_unknown {id : String} (hreserved : ¬ReservedId state id) :
    Listed (classifyVerification sha256 input state).unknownFailures id →
      Listed (findingsOf sha256 input state .unknown) id := by
  intro hlisted
  obtain ⟨found, hmem, hid⟩ := hlisted
  simp only [classifyVerification, List.mem_append, Option.mem_toList] at hmem
  rcases hmem with (hmem | hcleanup) | hboundary
  · exact ⟨found, hmem, hid⟩
  · rw [cleanupFinding] at hcleanup
    split at hcleanup
    · next hfailed =>
      cases hcleanup
      exact absurd (.inl ⟨hid.symm, hfailed⟩) hreserved
    · cases hcleanup
  · rw [boundaryFinding] at hboundary
    obtain ⟨attempt, hattempt, rfl⟩ := Option.map_eq_some_iff.1 hboundary
    exact absurd (.inr ⟨hid.symm, by rw [hattempt]; rfl⟩) hreserved

/-- A check is in one list at most. -/
theorem listed_once (hdistinct : (state.checks.map VerificationCheck.id).Nodup)
    {check : VerificationCheck} (hcheck : check ∈ state.checks)
    (hreserved : ¬ReservedId state check.id) :
    (classifyVerification sha256 input state).lists.Pairwise fun list other =>
      ¬(Listed list check.id ∧ Listed other check.id) := by
  have honce : ∀ {kind kind' : FindingKind}, kind ≠ kind' →
      Listed (findingsOf sha256 input state kind) check.id →
      ¬Listed (findingsOf sha256 input state kind') check.id := by
    intro kind kind' hne hlisted hlisted'
    obtain ⟨found, hfound, hkind⟩ := (listed_findingsOf hdistinct hcheck).1 hlisted
    obtain ⟨found', hfound', hkind'⟩ := (listed_findingsOf hdistinct hcheck).1 hlisted'
    rw [hfound] at hfound'
    cases hfound'
    exact hne (hkind.symm.trans hkind')
  have hunknown : ∀ {kind : FindingKind}, kind ≠ .unknown →
      Listed (findingsOf sha256 input state kind) check.id →
      ¬Listed (classifyVerification sha256 input state).unknownFailures check.id :=
    fun hne hlisted hlast => honce hne hlisted (listed_unknown hreserved hlast)
  simp only [ChangeVerificationResult.lists, List.pairwise_cons, List.mem_cons, List.not_mem_nil,
    or_false, forall_eq_or_imp, forall_eq, false_implies, implies_true, not_and, and_true,
    List.Pairwise.nil]
  exact ⟨⟨honce (by decide), honce (by decide), hunknown (by decide)⟩,
    ⟨honce (by decide), hunknown (by decide)⟩, hunknown (by decide)⟩

/-- A check that did not pass on the candidate is listed as a failure of some kind. -/
theorem listed_of_failed (hdistinct : (state.checks.map VerificationCheck.id).Nodup)
    {check : VerificationCheck} (hcheck : check ∈ state.checks)
    (hfailed : resultPassed (resultOf state.candidate.items check.id) = false) :
    Listed (classifyVerification sha256 input state).relatedFailures check.id ∨
      Listed (classifyVerification sha256 input state).unrelatedFailures check.id ∨
      Listed (classifyVerification sha256 input state).unknownFailures check.id := by
  obtain ⟨found, hfound, hkind⟩ := @checkFinding_failed sha256 input state check hfailed
  have hlisted : ∀ kind, found.kind = kind →
      Listed (findingsOf sha256 input state kind) check.id := fun kind hk =>
    (listed_findingsOf hdistinct hcheck).2 ⟨found, hfound, hk⟩
  rcases hkind with hrelated | hunrelated | hunknown
  · exact .inl (hlisted _ hrelated)
  · exact .inr (.inl (hlisted _ hunrelated))
  · obtain ⟨other, hmem, hid⟩ := hlisted _ hunknown
    exact .inr (.inr ⟨other, by simp [classifyVerification, hmem], hid⟩)

/-- Ready is the route of a verification with nothing left to settle. -/
theorem route_eq_ready :
    (classifyVerification sha256 input state).route = .ready ↔
      (classifyVerification sha256 input state).relatedFailures = [] ∧
      (classifyVerification sha256 input state).unknownFailures = [] ∧
      (classifyVerification sha256 input state).untestedChecks = [] ∧
      rejectedRepair state.repairAttempts = none := by
  simp only [classifyVerification]
  split
  · next hrejected =>
    have hsome : rejectedRepair state.repairAttempts ≠ none := fun hnone => by
      simp [hnone] at hrejected
    simp [hsome]
  · next hrejected =>
    have hnone : rejectedRepair state.repairAttempts = none := by
      simpa using hrejected
    split
    · next hopen =>
      constructor
      · intro h
        cases h
      · intro h
        exact (hopen.elim (fun hne => hne h.2.1) fun hne => hne h.2.2.1).elim
    · next hopen =>
      rw [not_or, not_not, not_not] at hopen
      split
      · next hrelated => simp [hrelated, hopen, hnone]
      · next hrelated => simp [hrelated]

/-- What a classification of checks with distinct names says of each of them, and when the
change is ready. -/
theorem classifyVerification_sound (hsha : Injective sha256)
    (hdistinct : (state.checks.map VerificationCheck.id).Nodup) :
    (∀ check ∈ state.checks,
      (¬ReservedId state check.id →
        (classifyVerification sha256 input state).lists.Pairwise fun list other =>
          ¬(Listed list check.id ∧ Listed other check.id)) ∧
      (resultPassed (resultOf state.candidate.items check.id) = false →
        Listed (classifyVerification sha256 input state).relatedFailures check.id ∨
        Listed (classifyVerification sha256 input state).unrelatedFailures check.id ∨
        Listed (classifyVerification sha256 input state).unknownFailures check.id) ∧
      (Listed (classifyVerification sha256 input state).unrelatedFailures check.id →
        ∃ candidate base,
          resultOf state.candidate.items check.id = some candidate ∧
          resultOf state.base.items check.id = some base ∧
          resultComplete candidate = true ∧ resultComplete base = true ∧
          resultPassed (some candidate) = false ∧ resultPassed (some base) = false ∧
          SameFailure check (baseRoot input state) (candidateRoot input.workspace)
            candidate base)) ∧
    ((classifyVerification sha256 input state).route = .ready ↔
      (classifyVerification sha256 input state).relatedFailures = [] ∧
      (classifyVerification sha256 input state).unknownFailures = [] ∧
      (classifyVerification sha256 input state).untestedChecks = [] ∧
      rejectedRepair state.repairAttempts = none) := by
  refine ⟨fun check hcheck => ⟨listed_once hdistinct hcheck,
    listed_of_failed hdistinct hcheck, fun hlisted => ?_⟩, route_eq_ready⟩
  obtain ⟨found, hfound, hkind⟩ := (listed_findingsOf hdistinct hcheck).1 hlisted
  obtain ⟨candidate, base, hcandidate, hbase, hcomplete, hbaseComplete, hfailed, hbaseFailed,
    hsame⟩ := (checkFinding_cases hfound).2.2 hkind
  exact ⟨candidate, base, hcandidate, hbase, hcomplete, hbaseComplete, hfailed, hbaseFailed,
    sameFailure_of_fingerprint hsha hsame⟩

end

/-! ## A check with a reserved name -/

/-- A command that ended by itself. -/
def endedResult (id cwd : String) (exitCode : Int) : CommandBatchItemResult where
  id := id
  command := "npm"
  args := ["test"]
  cwd := cwd
  stdout := ""
  stderr := ""
  exitCode := some exitCode
  signal := none
  durationMs := 1
  outcome := if exitCode = 0 then .succeeded else .failed
  stdoutTruncated := false
  stderrTruncated := false
  error := none

/-- A check that may be run on both sides. -/
def sharedCheck (id : String) : VerificationCheck where
  id := id
  command := "npm"
  args := ["test"]
  cwd := "/work"
  timeoutMs := 1000
  maxOutputChars := 1000
  readOnly := true
  baseEligible := true
  changedFileScope := false
  findingFormat := .text
  mechanicalFix := none

def sampleInput : ChangeVerificationInput where
  originatingWorkflow := "autoimplement"
  qualifiedNode := "verify"
  workspace := {
    mode := .worktree, repository := "/repo", worktreePath := some "/work", baseBranch := "main"
    baseRevision := "abc", workBranch := "work", directDefaultBranchAuthorized := false
    preExistingChangedPaths := [], evidence := [], scope := "all" }
  checks := none
  changedFiles := none
  untested := none
  maxConcurrency := none

/-- A check fails on the candidate alone, and the base worktree could not be removed. -/
def uncleanState (id : String) : ExecutionState where
  checks := [sharedCheck id]
  candidate := ⟨[endedResult id "/work" 1], 1, 1⟩
  base := ⟨[endedResult id "/base" 0], 1, 1⟩
  baseEvidence := []
  cleanupEvidence := ["Base worktree cleanup failed: busy"]
  repairAttempts := []

/-- The failure is the change's own, as far as the two results go. -/
theorem checkFinding_unclean (sha256 : String → String) (id : String) :
    ∃ found, checkFinding sha256 sampleInput (uncleanState id) (sharedCheck id) = some found ∧
      found.checkId = id ∧ found.kind = .related := by
  have hcandidate : resultOf (uncleanState id).candidate.items (sharedCheck id).id =
      some (endedResult id "/work" 1) := by
    simp [resultOf, uncleanState, endedResult, sharedCheck]
  have hbase : resultOf (uncleanState id).base.items (sharedCheck id).id =
      some (endedResult id "/base" 0) := by
    simp [resultOf, uncleanState, endedResult, sharedCheck]
  have hcomplete : ∀ cwd exitCode, (some (endedResult id cwd exitCode)).filter resultComplete =
      some (endedResult id cwd exitCode) := fun cwd exitCode => by
    by_cases h : exitCode = 0 <;> simp [Option.filter, resultComplete, endedResult, h]
  have hpass : ∀ cwd exitCode, resultPassed (some (endedResult id cwd exitCode)) =
      decide (exitCode = 0) := fun cwd exitCode => by
    by_cases h : exitCode = 0 <;> simp [resultPassed, resultComplete, endedResult, h]
  have hshared : (!(sharedCheck id).baseEligible || !(sharedCheck id).readOnly) = false := rfl
  unfold checkFinding
  simp only [hcandidate, hbase, hcomplete, hshared, Bool.false_eq_true, if_false, comparedFinding,
    hpass]
  exact ⟨_, rfl, rfl, rfl⟩

/-- The check is a related failure, and the finding about the worktree has its name. -/
theorem reserved_check_listed_twice :
    ∃ (input : ChangeVerificationInput) (state : ExecutionState),
      (state.checks.map VerificationCheck.id).Nodup ∧
      ∃ check ∈ state.checks, ∀ sha256,
        Listed (classifyVerification sha256 input state).relatedFailures check.id ∧
        Listed (classifyVerification sha256 input state).unknownFailures check.id := by
  refine ⟨sampleInput, uncleanState "base-cleanup", List.nodup_singleton _,
    sharedCheck "base-cleanup", List.mem_singleton.2 rfl, fun sha256 => ⟨?_, ?_⟩⟩
  · obtain ⟨found, hfound, hid, hkind⟩ := checkFinding_unclean sha256 "base-cleanup"
    exact ⟨found, mem_findingsOf.2 ⟨_, List.mem_singleton.2 rfl, hfound, hkind⟩, hid⟩
  · have hcleanup : cleanupFailed (uncleanState "base-cleanup").cleanupEvidence = true := by
      decide
    have hfound : cleanupFinding sha256 (uncleanState "base-cleanup").cleanupEvidence = some _ :=
      if_pos hcleanup
    have hmem : ∀ found,
        cleanupFinding sha256 (uncleanState "base-cleanup").cleanupEvidence = some found →
        found ∈ (classifyVerification sha256 sampleInput
          (uncleanState "base-cleanup")).unknownFailures := by
      intro found hfound
      simp only [classifyVerification, List.mem_append, Option.mem_toList]
      exact .inl (.inr hfound)
    exact ⟨_, hmem _ hfound, rfl⟩

theorem unclean_classification :
    Injective (fun text : String => text) ∧
      ((uncleanState "test").checks.map VerificationCheck.id).Nodup ∧
      (classifyVerification (fun text => text) sampleInput (uncleanState "test")).route ≠
        .ready := by
  have hsound := @classifyVerification_sound (fun text => text) sampleInput (uncleanState "test")
    (fun _ _ h => h) (List.nodup_singleton _)
  refine ⟨fun _ _ h => h, List.nodup_singleton _, fun hready => ?_⟩
  obtain ⟨found, hfound, hid, hkind⟩ := checkFinding_unclean (fun text => text) "test"
  have hmem : found ∈ findingsOf (fun text => text) sampleInput (uncleanState "test") .related :=
    mem_findingsOf.2 ⟨_, List.mem_singleton.2 rfl, hfound, hkind⟩
  exact List.ne_nil_of_mem hmem (hsound.2.1 hready).1

end PiWorkflows.ChangeVerification
