import Mathlib.Tactic.IntervalCases
import PiWorkflows.Proofs.VerificationWalk

/-!
# Whose decisions an exit reports

The exits read the last judgment, the last reconciliation and the last guard of
the whole run. Only the guard is bound to be one of the last verification: a
guard that blocks leads to the exit at once. A judgment or a reconciliation may
have been made of results that later commands have replaced.

`exitFrom` is an exit that reads the decisions of the last verification alone.
The exits agree with it in every run that does not reach one of them with such
an outdated decision (`exit_reports_current`), and one run that does shows the
difference (`stale_judgment_reported`).
-/

namespace PiWorkflows.ChangeVerification

open Fallible

/-! ## The last verification -/

/-- The steps behind the last classification. -/
def lastVerification (steps : List VerificationStep) : List VerificationStep :=
  (steps.reverse.takeWhile fun step => step.nodeId ≠ .classify).reverse

/-- A node has run, but not since the last classification. -/
def Outdated (steps : List VerificationStep) (node : VerificationNode) : Prop :=
  latestStep steps node ≠ none ∧ latestStep (lastVerification steps) node = none

/-- The exits, with the decisions of some of the steps. -/
def exitFrom (sha256 : String → String) (input : ChangeVerificationInput)
    (steps decisions : List VerificationStep) : VerificationNode →
    Except String ChangeVerificationResult
  | .ready => do
      let result ← latestClassification sha256 input steps
      pure ((judgmentOf decisions).elim { result with route := .ready } fun judgment =>
        { result with
          route := .ready
          reason := judgment.reason
          evidence := result.evidence ++ judgment.evidence })
  | .blocked =>
      match planningResult steps with
      | some planning => .ok planning
      | none => do
          let result ← (guardResult decisions).elim (latestClassification sha256 input steps) pure
          pure { result with
            route := .blocked
            reason := (guardResult decisions).elim
              (blockedReason (reconciliationState decisions) (judgmentOf decisions) result)
              ChangeVerificationResult.reason
            evidence := result.evidence ++
              ((judgmentOf decisions).map Judgment.evidence).getD [] ++
              (reconciliationState decisions).evidence }
  | _ => .error "Workflow node is no exit"

/-- What a run reports: the output of its last step. -/
def VerificationRun.reported (run : VerificationRun) : Option ChangeVerificationResult :=
  match run.steps.getLast?.bind VerificationStep.output with
  | some (.result result) => some result
  | _ => none

/-- The run does not stand on an exit with an outdated decision that the exit reads. -/
def ExitFits (run : VerificationRun) : Prop :=
  (run.position = .standing .ready → ¬Outdated run.steps .judge) ∧
    (run.position = .standing .blocked →
      ¬Outdated run.steps .judge ∧ ¬Outdated run.steps .reconcileRepair)

theorem latestStep_suffix {steps : List VerificationStep} {node : VerificationNode}
    {step : VerificationStep} (h : latestStep (lastVerification steps) node = some step) :
    latestStep steps node = some step := by
  rw [latestStep, lastVerification, List.reverse_reverse] at h
  rw [latestStep]
  have hsplit := List.takeWhile_append_dropWhile
    (p := fun step : VerificationStep => decide (step.nodeId ≠ .classify)) (l := steps.reverse)
  rw [← hsplit, List.find?_append, h]
  rfl

/-- What is not outdated is the same in the last verification and in the whole run. -/
theorem latestStep_current {steps : List VerificationStep} {node : VerificationNode}
    (h : ¬Outdated steps node) : latestStep (lastVerification steps) node = latestStep steps node := by
  cases hlast : latestStep (lastVerification steps) node with
  | some step => exact (latestStep_suffix hlast).symm
  | none =>
      by_contra hne
      exact h ⟨fun hnone => hne hnone.symm, hlast⟩

theorem outputs_current {steps : List VerificationStep} {node : VerificationNode}
    (h : ¬Outdated steps node) : outputs (lastVerification steps) node = outputs steps node := by
  rw [outputs, outputs, latestStep_current h]

theorem judgmentOf_current {steps : List VerificationStep} (h : ¬Outdated steps .judge) :
    judgmentOf (lastVerification steps) = judgmentOf steps := by
  rw [judgmentOf, outputs_current h, judgmentOf]

theorem reconciliationState_current {steps : List VerificationStep}
    (h : ¬Outdated steps .reconcileRepair) :
    reconciliationState (lastVerification steps) = reconciliationState steps := by
  rw [reconciliationState, latestStep_current h, reconciliationOf, outputs_current h]
  rfl

theorem guardResult_current {steps : List VerificationStep} (h : ¬Outdated steps .repairGuard) :
    guardResult (lastVerification steps) = guardResult steps := by
  rw [guardResult, outputs_current h, guardResult]

/-! ## A guard that blocks -/

section

variable {sha256 : String → String} {world : World} {run : VerificationRun}

theorem readyExit_eq (input : ChangeVerificationInput) (steps : List VerificationStep) :
    readyExit sha256 input steps = exitFrom sha256 input steps steps .ready := by
  rw [readyExit, exitFrom]
  cases judgmentOf steps <;> rfl

theorem blockedExit_eq (input : ChangeVerificationInput) (steps : List VerificationStep) :
    blockedExit sha256 input steps = exitFrom sha256 input steps steps .blocked := by
  rw [blockedExit, exitFrom]
  cases guardResult steps <;> rfl

/-- The guard has blocked only if the run is about to leave through the exit, or has left. -/
def GuardLeads (run : VerificationRun) : Prop :=
  guardResult run.steps ≠ none → ∀ node, run.position = .standing node →
    node = .blocked ∧ run.steps.getLast?.map VerificationStep.nodeId = some .repairGuard

theorem next_cases :
    run.next sha256 world = run ∨ ∃ node ending, run.position = .standing node ∧
      nodeEnding sha256 world run node = some ending ∧
      run.next sha256 world = { run with
        steps := run.steps ++ [ending.step node]
        position := positionAfter node ending } := by
  cases hposition : run.position with
  | standing node =>
      cases hending : nodeEnding sha256 world run node with
      | none =>
          left
          simp only [VerificationRun.next, hposition, hending]
      | some ending =>
          exact .inr ⟨node, ending, rfl, hending, next_of_ending hposition hending⟩
  | «over» node =>
      left
      simp only [VerificationRun.next, hposition]
  | stopped error =>
      left
      simp only [VerificationRun.next, hposition]

theorem positionOf_over {node exit : VerificationNode} {route : Except String (Option RouteTarget)}
    (h : positionOf node route = .over exit) : route = .ok none ∧ exit = node := by
  unfold positionOf at h
  split at h
  · split at h <;> cases h
  · cases h
  · cases h
    exact ⟨rfl, rfl⟩
  · cases h

theorem outgoingEdge_of_next {edges : List WorkflowEdge} {source : String} {output result : JsRef}
    (h : resolveNext edges source output result = .ok none) : outgoingEdge edges source = none := by
  unfold resolveNext at h
  split at h
  · next hedge => exact hedge
  · cases h
  · next source' on cases hedge =>
    cases hroute : resolveSwitchTarget on cases output result with
    | error message => rw [hroute] at h; cases h
    | ok target => rw [hroute] at h; cases h

/-- Only an exit ends a run, and only by what it returns. -/
theorem over_after {node exit : VerificationNode} {ending : NodeEnding}
    (h : positionAfter node ending = .over exit) :
    exit = node ∧ (node = .ready ∨ node = .blocked) ∧ ∃ output, ending = .returned output := by
  cases ending with
  | returned output =>
      obtain ⟨hroute, rfl⟩ := positionOf_over h
      have hedge := outgoingEdge_of_next hroute
      refine ⟨rfl, ?_, output, rfl⟩
      cases exit with
      | ready => exact .inl rfl
      | blocked => exact .inr rfl
      | _ => exact absurd hedge (by decide)
  | threw outcome notOk error =>
      rw [positionAfter] at h
      split at h
      · cases h
      · split at h
        · cases h
        · next hroute => exact absurd (positionOf_over h).1 hroute

theorem blocked_ends {ending : NodeEnding} {node : VerificationNode} :
    positionAfter .blocked ending ≠ .standing node := by
  intro h
  cases ending with
  | returned output => cases h
  | threw outcome notOk error => cases outcome <;> cases h

theorem GuardLeads.next (h : GuardLeads run) : GuardLeads (run.next sha256 world) := by
  rcases @next_cases sha256 world run with
    hsame | ⟨node, ending, hposition, hending, hnext⟩
  · rw [hsame]
    exact h
  · rw [hnext]
    intro hblocked target htarget
    simp only [] at hblocked htarget ⊢
    by_cases hnode : node = .repairGuard
    · subst hnode
      cases ending with
      | threw outcome notOk error =>
          refine absurd ?_ hblocked
          rw [guardResult, outputs, latestStep_same (step_nodeId _ _)]
          simp [NodeEnding.step, notOk]
      | returned output =>
          rw [guardResult, outputs_same] at hblocked
          have hguarded : ∃ result, output = .guarded (.blocked result) := by
            split at hblocked
            · next result heq => exact ⟨result, Option.some.inj heq⟩
            · exact absurd rfl hblocked
          obtain ⟨result, rfl⟩ := hguarded
          refine ⟨?_, by simp⟩
          cases htarget
          rfl
    · rw [guardResult, outputs_other (by rwa [step_nodeId])] at hblocked
      obtain ⟨rfl, -⟩ := h hblocked node hposition
      exact absurd htarget blocked_ends

/-- So the guard that an exit reads is one of the last verification. -/
theorem guardResult_leads (h : GuardLeads run) (hposition : run.position = .standing .blocked) :
    guardResult (lastVerification run.steps) = guardResult run.steps := by
  cases hlast : latestStep (lastVerification run.steps) .repairGuard with
  | some step =>
      have hcurrent : ¬Outdated run.steps .repairGuard := by
        intro houtdated
        rw [houtdated.2] at hlast
        cases hlast
      exact guardResult_current hcurrent
  | none =>
      have hnone : guardResult (lastVerification run.steps) = none := by
        rw [guardResult, outputs, hlast]
        rfl
      rw [hnone]
      by_contra hsome
      obtain ⟨-, hguard⟩ := h (fun heq => hsome heq.symm) _ hposition
      obtain ⟨step, hstep, hnode⟩ := Option.map_eq_some_iff.1 hguard
      obtain ⟨before, hsteps⟩ := List.getLast?_eq_some_iff.1 hstep
      rw [latestStep, lastVerification, List.reverse_reverse, hsteps, List.reverse_append] at hlast
      simp [hnode] at hlast

/-! ## The exits -/

/-- An exit that no outdated decision leads to reports what the last verification decided. -/
theorem exit_current {node : VerificationNode} (hleads : GuardLeads run) (hfits : ExitFits run)
    (hposition : run.position = .standing node) (hexit : node = .ready ∨ node = .blocked) :
    nodeEnding sha256 world run node = some (.ofExcept
      ((exitFrom sha256 run.input run.steps (lastVerification run.steps) node).map .result)) := by
  rcases hexit with rfl | rfl
  · have hjudge := judgmentOf_current (hfits.1 hposition)
    rw [nodeEnding, readyExit_eq, exitFrom, exitFrom, hjudge]
  · obtain ⟨hjudge, hreconcile⟩ := hfits.2 hposition
    rw [nodeEnding, blockedExit_eq, exitFrom, exitFrom, judgmentOf_current hjudge,
      reconciliationState_current hreconcile, guardResult_leads hleads hposition]

theorem walk_guardLeads (input : ChangeVerificationInput) (n : Nat) :
    GuardLeads (walk sha256 world input n) := by
  induction n with
  | zero => exact fun h => absurd rfl h
  | succ n ih => exact ih.next

theorem walk_input (input : ChangeVerificationInput) (n : Nat) :
    (walk sha256 world input n).input = input := by
  induction n with
  | zero => rfl
  | succ n ih =>
      rcases @next_cases sha256 world (walk sha256 world input n) with
        hsame | ⟨node, ending, -, -, hnext⟩
      · rw [walk, hsame]
        exact ih
      · rw [walk, hnext]
        exact ih

/-- In every run that reaches its exit without an outdated decision, the exit reports what was
decided on the last verification. -/
theorem exit_reports_current {input : ChangeVerificationInput} {n : Nat}
    (hfits : ∀ m < n, ExitFits (walk sha256 world input m)) {exit : VerificationNode}
    {result : ChangeVerificationResult}
    (hover : (walk sha256 world input n).position = .over exit)
    (hreported : (walk sha256 world input n).reported = some result) :
    exitFrom sha256 input (walk sha256 world input n).steps.dropLast
      (lastVerification (walk sha256 world input n).steps.dropLast) exit = .ok result := by
  induction n with
  | zero => cases hover
  | succ n ih =>
      have hwalk : walk sha256 world input (n + 1) = (walk sha256 world input n).next sha256 world :=
        rfl
      have hinput : (walk sha256 world input n).input = input := walk_input input n
      rw [hwalk] at hover hreported ⊢
      rcases @next_cases sha256 world (walk sha256 world input n) with
        hsame | ⟨node, ending, hposition, hending, hnext⟩
      · rw [hsame] at hover hreported ⊢
        exact ih (fun m hm => hfits m (Nat.lt_succ_of_lt hm)) hover hreported
      · rw [hnext] at hover hreported ⊢
        obtain ⟨rfl, hexit, output, rfl⟩ := over_after hover
        rw [exit_current (walk_guardLeads input n) (hfits n (Nat.lt_succ_self n)) hposition hexit, hinput] at hending
        rw [List.dropLast_concat]
        cases hfrom : exitFrom sha256 input (walk sha256 world input n).steps
            (lastVerification (walk sha256 world input n).steps) exit with
        | error message =>
            rw [hfrom] at hending
            cases hending
        | ok report =>
            rw [hfrom] at hending
            cases hending
            rw [VerificationRun.reported, List.getLast?_concat] at hreported
            exact congrArg Except.ok (Option.some.inj hreported)

end

/-! ## An outdated judgment -/

/-- A check that is run on the candidate only. -/
def lintCheck : VerificationCheck where
  id := "lint"
  command := "npm"
  args := ["run", "lint"]
  cwd := "/work"
  timeoutMs := 1000
  maxOutputChars := 1000
  readOnly := true
  baseEligible := false
  changedFileScope := false
  findingFormat := .text
  mechanicalFix := none

def lintPassed : CommandBatchItemResult where
  id := "lint"
  command := "npm"
  args := ["run", "lint"]
  cwd := "/work"
  stdout := ""
  stderr := ""
  exitCode := some 0
  signal := none
  durationMs := 1
  outcome := .succeeded
  stdoutTruncated := false
  stderrTruncated := false
  error := none

def lintInput : ChangeVerificationInput where
  originatingWorkflow := "autoimplement"
  qualifiedNode := "verify"
  workspace := {
    mode := .worktree, repository := "/repo", worktreePath := some "/work", baseBranch := "main"
    baseRevision := "abc", workBranch := "work", directDefaultBranchAuthorized := false
    preExistingChangedPaths := [], evidence := [], scope := "all" }
  checks := some [lintCheck]
  changedFiles := none
  untested := none
  maxConcurrency := none

/-- The first run of the check leaves no result, and a judgment sends the change to a repair.
From then on the check passes. -/
def repairedWorld : World where
  planChecks := fun _ => .interrupted .timed_out timed_out_ne_ok "Node timed out"
  runCandidate := fun run =>
    .answered (if run.steps.length < 3 then ⟨[], 0, 1⟩ else ⟨[lintPassed], 1, 1⟩)
  runBase := fun _ => .answered ⟨⟨[], 0, 0⟩, [], []⟩
  mechanicalRepair := fun _ => .answered ([], "formatted")
  semanticRepair := fun _ => .answered (.obj [("result", .str "configured the linter")])
  reconcileRepair := fun _ => .interrupted .failed failed_ne_ok "Agent failed"
  judge := fun _ =>
    .answered (.obj [("route", .str "repair"), ("reason", .str "The linter never started.")])

/-- The judgment of the first verification is the reason of the exit after the second. -/
theorem stale_judgment_reported :
    ∃ (world : World) (input : ChangeVerificationInput) (n : Nat)
      (result : ChangeVerificationResult),
      (walk (fun _ => "") world input n).position = .over .ready ∧
      (walk (fun _ => "") world input n).reported = some result ∧
      result.reason = "The linter never started." ∧
      latestStep (lastVerification (walk (fun _ => "") world input n).steps) .judge = none ∧
      exitFrom (fun _ => "") input (walk (fun _ => "") world input n).steps.dropLast
        (lastVerification (walk (fun _ => "") world input n).steps.dropLast) .ready ≠ .ok result := by
  refine ⟨repairedWorld, lintInput, 11, _, rfl, rfl, rfl, rfl, fun hreport => ?_⟩
  have hreason := congrArg (fun r => r.toOption.map ChangeVerificationResult.reason) hreport
  revert hreason
  decide

/-- The check passes at once. -/
def passingWorld : World :=
  { repairedWorld with runCandidate := fun _ => .answered ⟨[lintPassed], 1, 1⟩ }

theorem passing_exit_reported :
    ∃ result, exitFrom (fun _ => "") lintInput
        (walk (fun _ => "") passingWorld lintInput 5).steps.dropLast
        (lastVerification (walk (fun _ => "") passingWorld lintInput 5).steps.dropLast) .ready =
      .ok result := by
  refine ⟨_, @exit_reports_current (fun _ => "") passingWorld lintInput 5 ?_ .ready _ rfl rfl⟩
  intro m hm
  have hnever : ∀ run : VerificationRun, latestStep run.steps .judge = none →
      latestStep run.steps .reconcileRepair = none → ExitFits run := fun run hjudge hreconcile =>
    ⟨fun _ houtdated => houtdated.1 hjudge, fun _ =>
      ⟨fun houtdated => houtdated.1 hjudge, fun houtdated => houtdated.1 hreconcile⟩⟩
  interval_cases m <;> exact hnever _ rfl rfl

end PiWorkflows.ChangeVerification
