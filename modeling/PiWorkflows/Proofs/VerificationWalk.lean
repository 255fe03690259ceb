import PiWorkflows.Builtins.VerificationRun

/-!
# A verification comes to an end

The workflow has three ways back to an earlier node: a repair goes back to the
commands, a reconciliation to the commands or to the guard, and a judgment to the
guard. Each of them passes the guard, and the guard lets a repair through only
while fewer than two attempts are recorded; a repair that failed or timed out is
recorded as an attempt like one that was made.

So the steps still to come are bounded by the node the run stands on and the
repairs that are left (`remaining`), and every attempt takes one off that bound.
Along the way each node finds the outputs it reads (`Needs`).
-/

namespace PiWorkflows.ChangeVerification

open Fallible

/-! ## What a new step changes -/

theorem latestStep_same {steps : List VerificationStep} {step : VerificationStep}
    {node : VerificationNode} (h : step.nodeId = node) :
    latestStep (steps ++ [step]) node = some step := by
  simp [latestStep, h]

theorem latestStep_other {steps : List VerificationStep} {step : VerificationStep}
    {node : VerificationNode} (h : step.nodeId ≠ node) :
    latestStep (steps ++ [step]) node = latestStep steps node := by
  simp [latestStep, h]

theorem outputs_same {steps : List VerificationStep} {node : VerificationNode}
    {output : NodeOutput} :
    outputs (steps ++ [(NodeEnding.returned output).step node]) node = some output := by
  have hlast : latestStep (steps ++ [(NodeEnding.returned output).step node]) node = _ :=
    latestStep_same rfl
  rw [outputs, hlast]
  rfl

theorem outputs_other {steps : List VerificationStep} {step : VerificationStep}
    {node : VerificationNode} (h : step.nodeId ≠ node) :
    outputs (steps ++ [step]) node = outputs steps node := by
  rw [outputs, latestStep_other h, outputs]

@[simp] theorem step_nodeId (node : VerificationNode) (ending : NodeEnding) :
    (ending.step node).nodeId = node := by
  cases ending <;> rfl

theorem attempts_append (steps : List VerificationStep) (step : VerificationStep) :
    previousRepairAttempts (steps ++ [step]) =
      ((steps.foldl RepairHistory.add ⟨[], ""⟩).add step).attempts := by
  rw [previousRepairAttempts, List.foldl_append]
  rfl

/-- Only a repair leaves an attempt. -/
theorem attempts_other {steps : List VerificationStep} {step : VerificationStep}
    (h : isRepairNode step.nodeId = false) :
    previousRepairAttempts (steps ++ [step]) = previousRepairAttempts steps := by
  rw [attempts_append, RepairHistory.add]
  simp only [h, Bool.false_eq_true, if_false]
  rfl

/-- A repair that was made leaves one. -/
theorem attempts_returned {steps : List VerificationStep} {node : VerificationNode}
    {attempt : RepairAttempt} (h : isRepairNode node = true) :
    (previousRepairAttempts (steps ++ [(NodeEnding.returned (.repair attempt)).step node])).length =
      (previousRepairAttempts steps).length + 1 := by
  rw [attempts_append, RepairHistory.add]
  simp [NodeEnding.step, h, previousRepairAttempts]

/-- So does one that failed or timed out. -/
theorem attempts_threw {steps : List VerificationStep} {node : VerificationNode}
    {outcome : NodeOutcome} {notOk : outcome ≠ .ok} {error : String}
    (h : isRepairNode node = true) (hcancelled : outcome ≠ .cancelled) :
    (previousRepairAttempts (steps ++ [(NodeEnding.threw outcome notOk error).step node])).length =
      (previousRepairAttempts steps).length + 1 := by
  rw [attempts_append, RepairHistory.add]
  cases outcome with
  | ok => exact absurd rfl notOk
  | cancelled => exact absurd rfl hcancelled
  | timed_out => simp [NodeEnding.step, h, previousRepairAttempts]
  | failed => simp [NodeEnding.step, h, previousRepairAttempts]

/-! ## What a node finds -/

/-- The checks to run are known. -/
def ChecksKnown (input : ChangeVerificationInput) (steps : List VerificationStep) : Prop :=
  ∃ checks, checksForContext input steps = .ok checks

/-- There are results to compare. -/
def Classifiable (input : ChangeVerificationInput) (steps : List VerificationStep) : Prop :=
  ChecksKnown input steps ∧ (∃ batch, candidateBatch steps = some batch) ∧
    ∃ run, baseRun steps = some run

theorem ChecksKnown.append {input : ChangeVerificationInput} {steps : List VerificationStep}
    {step : VerificationStep} (h : ChecksKnown input steps) (hplan : step.nodeId ≠ .planChecks) :
    ChecksKnown input (steps ++ [step]) := by
  obtain ⟨checks, hchecks⟩ := h
  refine ⟨checks, ?_⟩
  rw [← hchecks, checksForContext, checksForContext, plannedChecks, plannedChecks,
    outputs_other hplan]

theorem candidateBatch_append {steps : List VerificationStep} {step : VerificationStep}
    (h : step.nodeId ≠ .runCandidate) :
    candidateBatch (steps ++ [step]) = candidateBatch steps := by
  rw [candidateBatch, outputs_other h, candidateBatch]

theorem baseRun_append {steps : List VerificationStep} {step : VerificationStep}
    (h : step.nodeId ≠ .runBase) : baseRun (steps ++ [step]) = baseRun steps := by
  rw [baseRun, outputs_other h, baseRun]

theorem Classifiable.append {input : ChangeVerificationInput} {steps : List VerificationStep}
    {step : VerificationStep} (h : Classifiable input steps) (hplan : step.nodeId ≠ .planChecks)
    (hcandidate : step.nodeId ≠ .runCandidate) (hbase : step.nodeId ≠ .runBase) :
    Classifiable input (steps ++ [step]) := by
  obtain ⟨hchecks, hbatch, hrun⟩ := h
  refine ⟨hchecks.append hplan, ?_, ?_⟩
  · rw [candidateBatch_append hcandidate]
    exact hbatch
  · rw [baseRun_append hbase]
    exact hrun

section

variable {sha256 : String → String}

theorem Classifiable.latestClassification (sha256 : String → String) {input : ChangeVerificationInput}
    {steps : List VerificationStep} (h : Classifiable input steps) :
    ∃ result, latestClassification sha256 input steps = .ok result := by
  obtain ⟨⟨checks, hchecks⟩, ⟨batch, hbatch⟩, run, hrun⟩ := h
  have hexecution : ∃ state, latestExecution input steps = .ok state := by
    rw [latestExecution, hchecks, hbatch, hrun]
    exact ⟨_, rfl⟩
  obtain ⟨state, hstate⟩ := hexecution
  exact ⟨_, by rw [ChangeVerification.latestClassification, hstate]; rfl⟩

/-- A step that is no repair and brings no new results leaves the classification alone. -/
theorem latestClassification_append {input : ChangeVerificationInput}
    {steps : List VerificationStep} {step : VerificationStep}
    (hplan : step.nodeId ≠ .planChecks) (hcandidate : step.nodeId ≠ .runCandidate)
    (hbase : step.nodeId ≠ .runBase) (hrepair : isRepairNode step.nodeId = false) :
    latestClassification sha256 input (steps ++ [step]) =
      latestClassification sha256 input steps := by
  have hplanned : plannedChecks (steps ++ [step]) = plannedChecks steps := by
    rw [plannedChecks, outputs_other hplan, plannedChecks]
  have hchecks : checksForContext input (steps ++ [step]) = checksForContext input steps := by
    rw [checksForContext, hplanned, checksForContext]
  rw [ChangeVerification.latestClassification, ChangeVerification.latestClassification,
    latestExecution, latestExecution, hplanned, hchecks, candidateBatch_append hcandidate,
    baseRun_append hbase, attempts_other hrepair]

/-- Some related failure has a fixer. -/
def FixerAvailable (sha256 : String → String) (input : ChangeVerificationInput)
    (steps : List VerificationStep) : Prop :=
  ∃ classification checks failure,
    latestClassification sha256 input steps = .ok classification ∧
    checksForContext input steps = .ok checks ∧ failure ∈ classification.relatedFailures ∧
    (mechanicalFixOf checks failure.checkId).isSome = true

/-- What a node reads is there, and a repair is only reached while there may be one more. -/
def Needs (sha256 : String → String) (input : ChangeVerificationInput)
    (steps : List VerificationStep) : VerificationNode → Prop
  | .selectChecks | .planChecks | .planChecksBlocked => True
  | .runCandidate => ChecksKnown input steps
  | .runBase => ChecksKnown input steps ∧ ∃ batch, candidateBatch steps = some batch
  | .classify | .repairGuard | .reconcileRepair | .judge | .ready => Classifiable input steps
  | .routeRepairReconciliation =>
      Classifiable input steps ∧ ∃ reconciliation, reconciliationOf steps = some reconciliation
  | .mechanicalRepair =>
      Classifiable input steps ∧ FixerAvailable sha256 input steps ∧
        (previousRepairAttempts steps).length < MAX_REPAIR_ATTEMPTS
  | .semanticRepair =>
      Classifiable input steps ∧ (previousRepairAttempts steps).length < MAX_REPAIR_ATTEMPTS
  | .blocked => (∃ result, planningResult steps = some result) ∨ Classifiable input steps

/-- The attempts still to come from a node, with so many repairs left. -/
def remaining (left : Nat) : VerificationNode → Nat
  | .selectChecks => 8 * left + 8
  | .planChecks => 8 * left + 7
  | .runCandidate => 8 * left + 6
  | .runBase => 8 * left + 5
  | .classify => 8 * left + 4
  | .judge => 8 * left + 3
  | .repairGuard => 8 * left + 2
  | .semanticRepair | .mechanicalRepair => 8 * left + 1
  | .reconcileRepair => 8 * left + 8
  | .routeRepairReconciliation => 8 * left + 7
  | .planChecksBlocked => 2
  | .ready | .blocked => 1

/-- The agents answer what the validators accept, or the attempt ends in a way that the
workflow has an edge for, and no action throws. -/
structure World.Orderly (world : World) : Prop where
  planChecks : ∀ run, (∃ plan, world.planChecks run = .answered plan) ∨
    ∃ outcome notOk error, world.planChecks run = .interrupted outcome notOk error ∧
      outcome ≠ .cancelled
  runCandidate : ∀ run, ∃ batch, world.runCandidate run = .answered batch
  runBase : ∀ run, ∃ base, world.runBase run = .answered base
  mechanicalRepair : ∀ run, ∃ outcome, world.mechanicalRepair run = .answered outcome
  semanticRepair : ∀ run,
    (∃ value, world.semanticRepair run = .answered value ∧ ∀ attempts fingerprint,
      ∃ attempt, parseSemanticRepair value attempts fingerprint = .ok attempt) ∨
    ∃ outcome notOk error, world.semanticRepair run = .interrupted outcome notOk error ∧
      outcome ≠ .cancelled
  reconcileRepair : ∀ run,
    (∃ value, world.reconcileRepair run = .answered value ∧
      ∃ reconciliation, parseRepairReconciliation value = .ok reconciliation) ∨
    ∃ outcome notOk error, world.reconcileRepair run = .interrupted outcome notOk error ∧
      outcome ≠ .cancelled
  judge : ∀ run, ∃ value, world.judge run = .answered value ∧ ∀ result,
    ∃ judgment, parseJudgment value result = .ok judgment

/-- The repairs of a run, the one it stands on included. -/
def VerificationRun.repairsStarted (run : VerificationRun) : Nat :=
  (run.steps.countP fun step => isRepairNode step.nodeId) +
    match run.position with
    | .standing node => if isRepairNode node then 1 else 0
    | _ => 0

/-- A run that is at one of its exits, or is to be there after so many more attempts. -/
structure OnCourse (sha256 : String → String) (run : VerificationRun) (bound : Nat) : Prop where
  counted : (run.steps.countP fun step => isRepairNode step.nodeId) =
    (previousRepairAttempts run.steps).length
  bounded : (previousRepairAttempts run.steps).length ≤ MAX_REPAIR_ATTEMPTS
  place : run.position = .over .ready ∨ run.position = .over .blocked ∨
    ∃ node, run.position = .standing node ∧ Needs sha256 run.input run.steps node ∧
      remaining (MAX_REPAIR_ATTEMPTS - (previousRepairAttempts run.steps).length) node ≤ bound

/-! ## One attempt -/

variable {world : World} {run : VerificationRun} {node : VerificationNode}
  {ending : NodeEnding} {bound : Nat}

theorem next_of_ending (hposition : run.position = .standing node)
    (hending : nodeEnding sha256 world run node = some ending) :
    run.next sha256 world =
      { run with
        steps := run.steps ++ [ending.step node]
        position := positionAfter node ending } := by
  simp only [VerificationRun.next, hposition, hending]

/-- A node that is no repair hands on to a node nearer to the end. -/
theorem OnCourse.hand (target : VerificationNode) (hrun : OnCourse sha256 run (bound + 1))
    (hposition : run.position = .standing node)
    (hending : nodeEnding sha256 world run node = some ending)
    (hafter : positionAfter node ending = .standing target) (hrepair : isRepairNode node = false)
    (hneeds : Needs sha256 run.input (run.steps ++ [ending.step node]) target)
    (hnearer : ∀ left, remaining left target + 1 ≤ remaining left node) :
    OnCourse sha256 (run.next sha256 world) bound := by
  have hattempts : previousRepairAttempts (run.steps ++ [ending.step node]) =
      previousRepairAttempts run.steps := attempts_other (by rwa [step_nodeId])
  have hplace := hrun.place
  simp only [hposition, reduceCtorEq, false_or, Position.standing.injEq, exists_eq_left'] at hplace
  have hleft := hnearer (MAX_REPAIR_ATTEMPTS - (previousRepairAttempts run.steps).length)
  rw [next_of_ending hposition hending]
  refine ⟨?_, ?_, .inr (.inr ⟨target, hafter, hneeds, ?_⟩)⟩
  · rw [hattempts, ← hrun.counted]
    simp [hrepair]
  · rw [hattempts]
    exact hrun.bounded
  · rw [hattempts]
    omega

/-- A repair uses up an attempt. -/
theorem OnCourse.repair (target : VerificationNode) (hrun : OnCourse sha256 run (bound + 1))
    (hposition : run.position = .standing node)
    (hending : nodeEnding sha256 world run node = some ending)
    (hafter : positionAfter node ending = .standing target) (hrepair : isRepairNode node = true)
    (hless : (previousRepairAttempts run.steps).length < MAX_REPAIR_ATTEMPTS)
    (hattempts : (previousRepairAttempts (run.steps ++ [ending.step node])).length =
      (previousRepairAttempts run.steps).length + 1)
    (hneeds : Needs sha256 run.input (run.steps ++ [ending.step node]) target)
    (hnearer : ∀ left, remaining left target + 1 ≤ remaining (left + 1) node) :
    OnCourse sha256 (run.next sha256 world) bound := by
  have hplace := hrun.place
  simp only [hposition, reduceCtorEq, false_or, Position.standing.injEq, exists_eq_left'] at hplace
  have hleft : MAX_REPAIR_ATTEMPTS - (previousRepairAttempts run.steps).length =
      MAX_REPAIR_ATTEMPTS - ((previousRepairAttempts run.steps).length + 1) + 1 := by omega
  have hnear := hnearer
    (MAX_REPAIR_ATTEMPTS - ((previousRepairAttempts run.steps).length + 1))
  rw [next_of_ending hposition hending]
  refine ⟨?_, ?_, .inr (.inr ⟨target, hafter, hneeds, ?_⟩)⟩
  · rw [hattempts, ← hrun.counted]
    simp [hrepair]
  · rw [hattempts]
    omega
  · rw [hattempts]
    rw [hleft] at hplace
    omega

/-- An exit ends the run. -/
theorem OnCourse.exit (hrun : OnCourse sha256 run (bound + 1))
    (hposition : run.position = .standing node)
    (hending : nodeEnding sha256 world run node = some ending)
    (hafter : positionAfter node ending = .over .ready ∨
      positionAfter node ending = .over .blocked) (hrepair : isRepairNode node = false) :
    OnCourse sha256 (run.next sha256 world) bound := by
  have hattempts : previousRepairAttempts (run.steps ++ [ending.step node]) =
      previousRepairAttempts run.steps := attempts_other (by rwa [step_nodeId])
  rw [next_of_ending hposition hending]
  refine ⟨?_, ?_, ?_⟩
  · rw [hattempts, ← hrun.counted]
    simp [hrepair]
  · rw [hattempts]
    exact hrun.bounded
  · exact hafter.elim .inl fun h => .inr (.inl h)

/-- A guard that lets a repair through has an attempt left for it. -/
theorem repairGuard_cases {input : ChangeVerificationInput} {steps : List VerificationStep}
    (h : Classifiable input steps) :
    (∃ result, repairGuard sha256 input steps = .ok (.blocked result)) ∨
    (previousRepairAttempts steps).length < MAX_REPAIR_ATTEMPTS ∧
      ((∃ attempt fingerprint,
          repairGuard sha256 input steps = .ok (.semantic attempt fingerprint)) ∨
        (FixerAvailable sha256 input steps ∧ ∃ attempt fingerprint,
          repairGuard sha256 input steps = .ok (.mechanical attempt fingerprint))) := by
  obtain ⟨classification, hclassification⟩ := h.latestClassification sha256
  obtain ⟨⟨checks, hchecks⟩, -⟩ := h
  by_cases hblocked : MAX_REPAIR_ATTEMPTS ≤ (previousRepairAttempts steps).length ∨
      repairRepeated steps classification.failureFingerprint = true
  · rw [repairGuard, hclassification]
    exact .inl ⟨_, if_pos hblocked⟩
  · refine .inr ⟨by omega, ?_⟩
    by_cases hfixable : (!classification.relatedFailures.isEmpty &&
        classification.relatedFailures.all fun failure =>
          (mechanicalFixOf checks failure.checkId).isSome) = true
    · have hfix := Bool.and_eq_true_iff.1 hfixable
      obtain ⟨failure, hfailure⟩ := List.exists_mem_of_ne_nil classification.relatedFailures
        (by simpa using hfix.1)
      refine .inr ⟨⟨classification, checks, failure, hclassification, hchecks, hfailure,
        List.all_eq_true.1 hfix.2 failure hfailure⟩,
        (previousRepairAttempts steps).length + 1, classification.failureFingerprint, ?_⟩
      rw [repairGuard, hclassification, hchecks]
      exact (if_neg hblocked).trans (congrArg Except.ok (if_pos hfixable))
    · refine .inl ⟨(previousRepairAttempts steps).length + 1, classification.failureFingerprint, ?_⟩
      rw [repairGuard, hclassification, hchecks]
      exact (if_neg hblocked).trans (congrArg Except.ok (if_neg hfixable))

/-- The fixer is still there behind the guard. -/
theorem FixerAvailable.append {input : ChangeVerificationInput} {steps : List VerificationStep}
    {step : VerificationStep} (h : FixerAvailable sha256 input steps)
    (hplan : step.nodeId ≠ .planChecks) (hcandidate : step.nodeId ≠ .runCandidate)
    (hbase : step.nodeId ≠ .runBase) (hrepair : isRepairNode step.nodeId = false) :
    FixerAvailable sha256 input (steps ++ [step]) := by
  obtain ⟨classification, checks, failure, hclassification, hchecks, hfailure, hfix⟩ := h
  refine ⟨classification, checks, failure, ?_, ?_, hfailure, hfix⟩
  · rw [latestClassification_append hplan hcandidate hbase hrepair]
    exact hclassification
  · rw [checksForContext, plannedChecks, outputs_other hplan]
    exact hchecks

/-! ## Node by node -/

/-- An answer that passes the validator is the end of the attempt. -/
theorem validated_answered {α : Type} {validate : α → Except String NodeOutput} {value : α}
    {output : NodeOutput} (h : validate value = .ok output) :
    (AttemptEnd.answered value).validated validate = some (.returned output) := by
  rw [AttemptEnd.validated, h]
  rfl

/-- The guard or an exit may read what the commands came to, whatever step came after. -/
theorem Classifiable.after {input : ChangeVerificationInput} {steps : List VerificationStep}
    (h : Classifiable input steps) (hplan : node ≠ .planChecks) (hcandidate : node ≠ .runCandidate)
    (hbase : node ≠ .runBase) : Classifiable input (steps ++ [ending.step node]) :=
  h.append (by rwa [step_nodeId]) (by rwa [step_nodeId]) (by rwa [step_nodeId])

theorem next_selectChecks (hrun : OnCourse sha256 run (bound + 1))
    (hposition : run.position = .standing .selectChecks) :
    OnCourse sha256 (run.next sha256 world) bound := by
  cases hchecks : run.input.checks.filter (!·.isEmpty) with
  | none =>
      have hending : nodeEnding sha256 world run .selectChecks =
          some (.returned (.selected true)) := by
        rw [nodeEnding, hchecks]
        rfl
      exact hrun.hand .planChecks hposition hending rfl rfl trivial
        fun left => by simp only [remaining]; omega
  | some checks =>
      have hending : nodeEnding sha256 world run .selectChecks =
          some (.returned (.selected false)) := by
        rw [nodeEnding, hchecks]
        rfl
      exact hrun.hand .runCandidate hposition hending rfl rfl
        ⟨checks, by rw [checksForContext, hchecks]⟩ fun left => by simp only [remaining]; omega

theorem next_planChecks (hworld : world.Orderly) (hrun : OnCourse sha256 run (bound + 1))
    (hposition : run.position = .standing .planChecks) :
    OnCourse sha256 (run.next sha256 world) bound := by
  rcases hworld.planChecks run with ⟨plan, hplan⟩ | ⟨outcome, notOk, error, hplan, hsettled⟩
  · have hending : nodeEnding sha256 world run .planChecks = some (.returned (.plan plan)) := by
      rw [nodeEnding, hplan]
      rfl
    refine hrun.hand .runCandidate hposition hending rfl rfl ?_
      fun left => by simp only [remaining]; omega
    cases hchecks : run.input.checks.filter (!·.isEmpty) with
    | none =>
        refine ⟨plan.checks, ?_⟩
        rw [checksForContext, hchecks, plannedChecks, outputs_same]
        rfl
    | some checks => exact ⟨checks, by rw [checksForContext, hchecks]⟩
  · have hending : nodeEnding sha256 world run .planChecks =
        some (.threw outcome notOk error) := by
      rw [nodeEnding, hplan]
      rfl
    refine hrun.hand .planChecksBlocked hposition hending ?_ rfl trivial
      fun left => by simp only [remaining]; omega
    cases outcome with
    | ok => exact absurd rfl notOk
    | cancelled => exact absurd rfl hsettled
    | timed_out => rfl
    | failed => rfl

theorem next_planChecksBlocked (hrun : OnCourse sha256 run (bound + 1))
    (hposition : run.position = .standing .planChecksBlocked) :
    OnCourse sha256 (run.next sha256 world) bound := by
  refine hrun.hand .blocked hposition rfl rfl rfl
    (.inl ⟨planChecksBlocked sha256 run.input run.steps, ?_⟩)
    fun left => by simp only [remaining]; omega
  rw [planningResult, outputs_same]

theorem next_runCandidate (hworld : world.Orderly) (hrun : OnCourse sha256 run (bound + 1))
    (hposition : run.position = .standing .runCandidate)
    (hneeds : ChecksKnown run.input run.steps) :
    OnCourse sha256 (run.next sha256 world) bound := by
  obtain ⟨batch, hbatch⟩ := hworld.runCandidate run
  obtain ⟨checks, hchecks⟩ := hneeds
  have hending : nodeEnding sha256 world run .runCandidate = some (.returned (.candidate batch)) := by
    rw [nodeEnding, hchecks, hbatch]
    rfl
  refine hrun.hand .runBase hposition hending rfl rfl
    ⟨ChecksKnown.append ⟨checks, hchecks⟩ (by rw [step_nodeId]; decide), batch, ?_⟩
    fun left => by simp only [remaining]; omega
  rw [candidateBatch, outputs_same]

theorem next_runBase (hworld : world.Orderly) (hrun : OnCourse sha256 run (bound + 1))
    (hposition : run.position = .standing .runBase)
    (hneeds : Needs sha256 run.input run.steps .runBase) :
    OnCourse sha256 (run.next sha256 world) bound := by
  obtain ⟨base, hbase⟩ := hworld.runBase run
  obtain ⟨⟨checks, hchecks⟩, batch, hbatch⟩ := hneeds
  have hending : nodeEnding sha256 world run .runBase = some (.returned (.base base)) := by
    rw [nodeEnding, hchecks, hbase]
    rfl
  refine hrun.hand .classify hposition hending rfl rfl
    ⟨ChecksKnown.append ⟨checks, hchecks⟩ (by rw [step_nodeId]; decide), ⟨batch, ?_⟩, base, ?_⟩
    fun left => by simp only [remaining]; omega
  · rw [candidateBatch_append (by rw [step_nodeId]; decide)]
    exact hbatch
  · rw [baseRun, outputs_same]

theorem next_classify (hrun : OnCourse sha256 run (bound + 1))
    (hposition : run.position = .standing .classify)
    (hneeds : Classifiable run.input run.steps) :
    OnCourse sha256 (run.next sha256 world) bound := by
  obtain ⟨result, hresult⟩ := hneeds.latestClassification sha256
  have hending : nodeEnding sha256 world run .classify = some (.returned (.result result)) := by
    rw [nodeEnding, hresult]
    rfl
  have hafter : Classifiable run.input
      (run.steps ++ [(NodeEnding.returned (.result result)).step .classify]) :=
    hneeds.after (by decide) (by decide) (by decide)
  obtain ⟨route, rest⟩ := result
  cases route with
  | ready =>
      exact hrun.hand .ready hposition hending rfl rfl hafter
        fun left => by simp only [remaining]; omega
  | repairable =>
      exact hrun.hand .repairGuard hposition hending rfl rfl hafter
        fun left => by simp only [remaining]; omega
  | needsJudgment =>
      exact hrun.hand .judge hposition hending rfl rfl hafter
        fun left => by simp only [remaining]; omega
  | blocked =>
      exact hrun.hand .blocked hposition hending rfl rfl (.inr hafter)
        fun left => by simp only [remaining]; omega

theorem next_judge (hworld : world.Orderly) (hrun : OnCourse sha256 run (bound + 1))
    (hposition : run.position = .standing .judge) (hneeds : Classifiable run.input run.steps) :
    OnCourse sha256 (run.next sha256 world) bound := by
  obtain ⟨result, hresult⟩ := hneeds.latestClassification sha256
  obtain ⟨value, hvalue, hparse⟩ := hworld.judge run
  obtain ⟨judgment, hjudgment⟩ := hparse result
  have hending : nodeEnding sha256 world run .judge = some (.returned (.judgment judgment)) := by
    rw [nodeEnding, hvalue]
    refine validated_answered ?_
    simp [hresult, hjudgment]
  have hafter : Classifiable run.input
      (run.steps ++ [(NodeEnding.returned (.judgment judgment)).step .judge]) :=
    hneeds.after (by decide) (by decide) (by decide)
  obtain ⟨route, rest⟩ := judgment
  cases route with
  | ready =>
      exact hrun.hand .ready hposition hending rfl rfl hafter
        fun left => by simp only [remaining]; omega
  | repair =>
      exact hrun.hand .repairGuard hposition hending rfl rfl hafter
        fun left => by simp only [remaining]; omega
  | blocked =>
      exact hrun.hand .blocked hposition hending rfl rfl (.inr hafter)
        fun left => by simp only [remaining]; omega

theorem next_repairGuard (hrun : OnCourse sha256 run (bound + 1))
    (hposition : run.position = .standing .repairGuard)
    (hneeds : Classifiable run.input run.steps) :
    OnCourse sha256 (run.next sha256 world) bound := by
  have hafter : ∀ ending : NodeEnding,
      Classifiable run.input (run.steps ++ [ending.step .repairGuard]) := fun ending =>
    hneeds.after (by decide) (by decide) (by decide)
  have hending : ∀ guard, repairGuard sha256 run.input run.steps = .ok guard →
      nodeEnding sha256 world run .repairGuard = some (.returned (.guarded guard)) := by
    intro guard hguard
    rw [nodeEnding, hguard]
    rfl
  have hattempts : ∀ ending : NodeEnding,
      previousRepairAttempts (run.steps ++ [ending.step .repairGuard]) =
        previousRepairAttempts run.steps := fun ending => attempts_other (by rw [step_nodeId]; rfl)
  rcases repairGuard_cases hneeds with ⟨result, hguard⟩ | ⟨hless, hopen⟩
  · exact hrun.hand .blocked hposition (hending _ hguard) rfl rfl (.inr (hafter _))
      fun left => by simp only [remaining]; omega
  · rcases hopen with ⟨attempt, fingerprint, hguard⟩ | ⟨hfixer, attempt, fingerprint, hguard⟩
    · exact hrun.hand .semanticRepair hposition (hending _ hguard) rfl rfl
        ⟨hafter _, by rwa [hattempts]⟩ fun left => by simp only [remaining]; omega
    · exact hrun.hand .mechanicalRepair hposition (hending _ hguard) rfl rfl
        ⟨hafter _, hfixer.append (by rw [step_nodeId]; decide) (by rw [step_nodeId]; decide)
          (by rw [step_nodeId]; decide) (by rw [step_nodeId]; rfl), by rwa [hattempts]⟩
        fun left => by simp only [remaining]; omega

theorem next_mechanicalRepair (hworld : world.Orderly) (hrun : OnCourse sha256 run (bound + 1))
    (hposition : run.position = .standing .mechanicalRepair)
    (hneeds : Needs sha256 run.input run.steps .mechanicalRepair) :
    OnCourse sha256 (run.next sha256 world) bound := by
  obtain ⟨outcome, houtcome⟩ := hworld.mechanicalRepair run
  obtain ⟨hclassifiable, ⟨classification, checks, failure, hclassification, hchecks, hfailure,
    hfix⟩, hless⟩ := hneeds
  have hrepair : ∃ attempt, mechanicalRepair sha256 run.input run.steps outcome.1 outcome.2 =
      .ok attempt := by
    have htarget : ∃ target, classification.relatedFailures.find? (fun item =>
        (mechanicalFixOf checks item.checkId).isSome) = some target :=
      Option.isSome_iff_exists.1 (List.find?_isSome.2 ⟨failure, hfailure, hfix⟩)
    obtain ⟨target, htarget⟩ := htarget
    rw [mechanicalRepair, hclassification, hchecks]
    have hthrow : orThrow "No mechanical repair is available"
        (classification.relatedFailures.find? fun item =>
          (mechanicalFixOf checks item.checkId).isSome) = .ok target := by
      rw [htarget, orThrow]
    exact ⟨_, bind_ok.2 ⟨_, rfl, bind_ok.2 ⟨_, rfl, bind_ok.2 ⟨_, hthrow, rfl⟩⟩⟩⟩
  obtain ⟨attempt, hattempt⟩ := hrepair
  have hending : nodeEnding sha256 world run .mechanicalRepair =
      some (.returned (.repair attempt)) := by
    rw [nodeEnding, houtcome]
    simp only [hattempt]
    rfl
  exact hrun.repair .runCandidate hposition hending rfl rfl hless (attempts_returned rfl)
    (hclassifiable.1.append (by rw [step_nodeId]; decide))
    fun left => by simp only [remaining]; omega

theorem next_semanticRepair (hworld : world.Orderly) (hrun : OnCourse sha256 run (bound + 1))
    (hposition : run.position = .standing .semanticRepair)
    (hneeds : Needs sha256 run.input run.steps .semanticRepair) :
    OnCourse sha256 (run.next sha256 world) bound := by
  obtain ⟨hclassifiable, hless⟩ := hneeds
  obtain ⟨classification, hclassification⟩ := hclassifiable.latestClassification sha256
  rcases hworld.semanticRepair run with
    ⟨value, hvalue, hparse⟩ | ⟨outcome, notOk, error, hvalue, hsettled⟩
  · obtain ⟨attempt, hattempt⟩ := hparse (previousRepairAttempts run.steps)
      classification.failureFingerprint
    have hending : nodeEnding sha256 world run .semanticRepair =
        some (.returned (.repair attempt)) := by
      rw [nodeEnding, hvalue]
      refine validated_answered ?_
      simp [hclassification, hattempt]
    exact hrun.repair .runCandidate hposition hending rfl rfl hless (attempts_returned rfl)
      (hclassifiable.1.append (by rw [step_nodeId]; decide))
      fun left => by simp only [remaining]; omega
  · have hending : nodeEnding sha256 world run .semanticRepair =
        some (.threw outcome notOk error) := by
      rw [nodeEnding, hvalue]
      rfl
    refine hrun.repair .reconcileRepair hposition hending ?_ rfl hless
      (attempts_threw rfl hsettled) (hclassifiable.after (by decide) (by decide) (by decide))
      fun left => by simp only [remaining]; omega
    cases outcome with
    | ok => exact absurd rfl notOk
    | cancelled => exact absurd rfl hsettled
    | timed_out => rfl
    | failed => rfl

theorem next_reconcileRepair (hworld : world.Orderly) (hrun : OnCourse sha256 run (bound + 1))
    (hposition : run.position = .standing .reconcileRepair)
    (hneeds : Classifiable run.input run.steps) :
    OnCourse sha256 (run.next sha256 world) bound := by
  have hafter : ∀ ending : NodeEnding,
      Classifiable run.input (run.steps ++ [ending.step .reconcileRepair]) := fun ending =>
    hneeds.after (by decide) (by decide) (by decide)
  rcases hworld.reconcileRepair run with
    ⟨value, hvalue, reconciliation, hparse⟩ | ⟨outcome, notOk, error, hvalue, hsettled⟩
  · have hending : nodeEnding sha256 world run .reconcileRepair =
        some (.returned (.reconciliation reconciliation)) := by
      rw [nodeEnding, hvalue]
      refine validated_answered ?_
      simp [hparse]
    refine hrun.hand .routeRepairReconciliation hposition hending rfl rfl
      ⟨hafter _, reconciliation, ?_⟩ fun left => by simp only [remaining]; omega
    rw [reconciliationOf, outputs_same]
  · have hending : nodeEnding sha256 world run .reconcileRepair =
        some (.threw outcome notOk error) := by
      rw [nodeEnding, hvalue]
      rfl
    refine hrun.hand .blocked hposition hending ?_ rfl (.inr (hafter _))
      fun left => by simp only [remaining]; omega
    cases outcome with
    | ok => exact absurd rfl notOk
    | cancelled => exact absurd rfl hsettled
    | timed_out => rfl
    | failed => rfl

theorem next_routeRepairReconciliation (hrun : OnCourse sha256 run (bound + 1))
    (hposition : run.position = .standing .routeRepairReconciliation)
    (hneeds : Needs sha256 run.input run.steps .routeRepairReconciliation) :
    OnCourse sha256 (run.next sha256 world) bound := by
  obtain ⟨hclassifiable, reconciliation, hreconciliation⟩ := hneeds
  have hending : nodeEnding sha256 world run .routeRepairReconciliation =
      some (.returned (.reconciliation reconciliation)) := by
    rw [nodeEnding, hreconciliation]
    rfl
  have hafter : Classifiable run.input (run.steps ++
      [(NodeEnding.returned (.reconciliation reconciliation)).step .routeRepairReconciliation]) :=
    hclassifiable.after (by decide) (by decide) (by decide)
  obtain ⟨route, rest⟩ := reconciliation
  cases route with
  | verify =>
      exact hrun.hand .runCandidate hposition hending rfl rfl hafter.1
        fun left => by simp only [remaining]; omega
  | retry =>
      exact hrun.hand .repairGuard hposition hending rfl rfl hafter
        fun left => by simp only [remaining]; omega
  | blocked =>
      exact hrun.hand .blocked hposition hending rfl rfl (.inr hafter)
        fun left => by simp only [remaining]; omega

theorem next_ready (hrun : OnCourse sha256 run (bound + 1))
    (hposition : run.position = .standing .ready) (hneeds : Classifiable run.input run.steps) :
    OnCourse sha256 (run.next sha256 world) bound := by
  obtain ⟨result, hresult⟩ := hneeds.latestClassification sha256
  have hexit : ∃ exit, readyExit sha256 run.input run.steps = .ok exit := by
    rw [readyExit, hresult]
    cases judgmentOf run.steps with
    | none => exact ⟨_, rfl⟩
    | some judgment => exact ⟨_, rfl⟩
  obtain ⟨exit, hexit⟩ := hexit
  have hending : nodeEnding sha256 world run .ready = some (.returned (.result exit)) := by
    rw [nodeEnding, hexit]
    rfl
  exact hrun.exit hposition hending (.inl rfl) rfl

theorem next_blocked (hrun : OnCourse sha256 run (bound + 1))
    (hposition : run.position = .standing .blocked)
    (hneeds : Needs sha256 run.input run.steps .blocked) :
    OnCourse sha256 (run.next sha256 world) bound := by
  have hexit : ∃ exit, blockedExit sha256 run.input run.steps = .ok exit := by
    rw [blockedExit]
    cases hplanning : planningResult run.steps with
    | some planning => exact ⟨planning, rfl⟩
    | none =>
        cases hguard : guardResult run.steps with
        | some guarded => exact ⟨_, rfl⟩
        | none =>
            rcases hneeds with ⟨planning, hsome⟩ | hclassifiable
            · rw [hplanning] at hsome
              cases hsome
            · obtain ⟨result, hresult⟩ := hclassifiable.latestClassification sha256
              simp only [hresult]
              exact ⟨_, rfl⟩
  obtain ⟨exit, hexit⟩ := hexit
  have hending : nodeEnding sha256 world run .blocked = some (.returned (.result exit)) := by
    rw [nodeEnding, hexit]
    rfl
  exact hrun.exit hposition hending (.inr rfl) rfl

/-! ## The walk -/

/-- Every attempt of an orderly world brings a run nearer to its end. -/
theorem OnCourse.next (hworld : world.Orderly) (hrun : OnCourse sha256 run (bound + 1)) :
    OnCourse sha256 (run.next sha256 world) bound := by
  rcases hrun.place with hover | hover | ⟨node, hposition, hneeds, -⟩
  · rw [VerificationRun.next, hover]
    exact ⟨hrun.counted, hrun.bounded, .inl hover⟩
  · rw [VerificationRun.next, hover]
    exact ⟨hrun.counted, hrun.bounded, .inr (.inl hover)⟩
  · cases node with
    | selectChecks => exact next_selectChecks hrun hposition
    | planChecks => exact next_planChecks hworld hrun hposition
    | planChecksBlocked => exact next_planChecksBlocked hrun hposition
    | runCandidate => exact next_runCandidate hworld hrun hposition hneeds
    | runBase => exact next_runBase hworld hrun hposition hneeds
    | classify => exact next_classify hrun hposition hneeds
    | routeRepairReconciliation => exact next_routeRepairReconciliation hrun hposition hneeds
    | repairGuard => exact next_repairGuard hrun hposition hneeds
    | mechanicalRepair => exact next_mechanicalRepair hworld hrun hposition hneeds
    | semanticRepair => exact next_semanticRepair hworld hrun hposition hneeds
    | reconcileRepair => exact next_reconcileRepair hworld hrun hposition hneeds
    | judge => exact next_judge hworld hrun hposition hneeds
    | ready => exact next_ready hrun hposition hneeds
    | blocked => exact next_blocked hrun hposition hneeds

/-- A run that needs no more attempts is at an exit. -/
theorem OnCourse.ended (hrun : OnCourse sha256 run 0) :
    run.position = .over .ready ∨ run.position = .over .blocked := by
  rcases hrun.place with hover | hover | ⟨node, -, -, hbound⟩
  · exact .inl hover
  · exact .inr hover
  · cases node <;> simp [remaining] at hbound

theorem walk_onCourse (hworld : world.Orderly) (input : ChangeVerificationInput) (n : Nat) :
    OnCourse sha256 (walk sha256 world input n) (24 - n) := by
  induction n with
  | zero => exact ⟨rfl, Nat.zero_le _, .inr (.inr ⟨.selectChecks, rfl, trivial, Nat.le_refl 24⟩)⟩
  | succ n ih =>
      rcases Nat.eq_zero_or_pos (24 - n) with hzero | hpos
      · -- the run has ended before, and stays where it is
        rw [hzero] at ih
        have hstays : (walk sha256 world input n).next sha256 world = walk sha256 world input n := by
          rw [VerificationRun.next]
          rcases ih.ended with hover | hover <;> rw [hover]
        rw [show 24 - (n + 1) = 0 by omega, walk, hstays]
        exact ih
      · rw [show 24 - n = 24 - (n + 1) + 1 by omega] at ih
        exact ih.next hworld

theorem OnCourse.repairsStarted_le (hrun : OnCourse sha256 run bound) :
    run.repairsStarted ≤ MAX_REPAIR_ATTEMPTS := by
  have hcounted := hrun.counted
  have hbounded := hrun.bounded
  rw [VerificationRun.repairsStarted]
  rcases hrun.place with hover | hover | ⟨node, hposition, hneeds, -⟩
  · rw [hover]
    simp only [hcounted]
    omega
  · rw [hover]
    simp only [hcounted]
    omega
  · rw [hposition]
    simp only [hcounted]
    cases node with
    | mechanicalRepair =>
        have hless := hneeds.2.2
        rw [if_pos (by rfl)]
        omega
    | semanticRepair =>
        have hless := hneeds.2
        rw [if_pos (by rfl)]
        omega
    | _ =>
        rw [if_neg (by decide)]
        omega

/-- Whatever the agents answer and the commands come to, a verification starts two repairs at
most and reaches one of its exits within its declared steps. -/
theorem walk_ends (sha256 : String → String) (hworld : world.Orderly)
    (input : ChangeVerificationInput) :
    (∀ n, (walk sha256 world input n).repairsStarted ≤ MAX_REPAIR_ATTEMPTS) ∧
      ∃ n ≤ maxSteps, (walk sha256 world input n).position = .over .ready ∨
        (walk sha256 world input n).position = .over .blocked :=
  ⟨fun n => (walk_onCourse hworld input n).repairsStarted_le, 24, by decide,
    (walk_onCourse hworld input 24).ended⟩

end

/-- A world where every repair times out and nothing can be attributed. -/
def weakWorld : World where
  planChecks := fun _ => .interrupted .timed_out timed_out_ne_ok "Node timed out"
  runCandidate := fun _ => .answered ⟨[], 0, 0⟩
  runBase := fun _ => .answered ⟨⟨[], 0, 0⟩, [], []⟩
  mechanicalRepair := fun _ => .answered ([], "formatted")
  semanticRepair := fun _ => .interrupted .timed_out timed_out_ne_ok "Node timed out"
  reconcileRepair := fun _ => .interrupted .failed failed_ne_ok "Agent failed"
  judge := fun _ => .answered (.obj [("route", .str "repair"), ("reason", .str "try again")])

theorem weakWorld_orderly : weakWorld.Orderly where
  planChecks := fun _ => .inr ⟨_, _, _, rfl, by decide⟩
  runCandidate := fun _ => ⟨_, rfl⟩
  runBase := fun _ => ⟨_, rfl⟩
  mechanicalRepair := fun _ => ⟨_, rfl⟩
  semanticRepair := fun _ => .inr ⟨_, _, _, rfl, by decide⟩
  reconcileRepair := fun _ => .inr ⟨_, _, _, rfl, by decide⟩
  judge := fun _ => ⟨_, rfl, fun _ => ⟨_, rfl⟩⟩

/-- A change in a worktree of its own, with nothing said about the checks. -/
def plainInput : ChangeVerificationInput where
  originatingWorkflow := "autoimplement"
  qualifiedNode := "verify"
  workspace := {
    mode := .worktree, repository := "/repo", worktreePath := some "/work", baseBranch := "main"
    baseRevision := "abc", workBranch := "work", directDefaultBranchAuthorized := false
    preExistingChangedPaths := [], evidence := [], scope := "all" }
  checks := none
  changedFiles := none
  untested := none
  maxConcurrency := none

theorem weakWorld_walk_ends :
    ∃ n ≤ maxSteps, (walk id weakWorld plainInput n).position = .over .ready ∨
      (walk id weakWorld plainInput n).position = .over .blocked :=
  (walk_ends id weakWorld_orderly plainInput).2

end PiWorkflows.ChangeVerification
