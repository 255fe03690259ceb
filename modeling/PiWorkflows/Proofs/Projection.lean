import PiWorkflows.Proofs.CanonicalText
import PiWorkflows.Proofs.Compiled
import PiWorkflows.Workflows.Projection

/-!
# The rebuilt projection is the live one

`recordAttempt` and `buildRunState` fold the same attempts into the same two
maps by different routes: the first asks the composition metadata for exits and
keeps results as it got them, the second asks the stored snapshot and rebuilds
results from rows. They agree attempt by attempt (`projectStep_recordAttempt`),
in the order of the members as well, so no order of entries, exits, failures and
repeats can separate them.

Three facts carry the step: the snapshot names the same exits with the same
mount paths (`exitMountPath_snapshot`), a row gives back the step it was made of
(`readStep_storeStep`), and a step says everything its result did
(`resultForStep_stepOfAttempt`). What has been through the database has its JSON
in canonical order, so the agreement is up to `Projection.normalize`.
-/

namespace PiWorkflows

open Fallible

/-! ## Exits -/

theorem snapshot_lookup (compiled : ExecutableWorkflow) (nodeId : String) :
    (createDefinitionSnapshot compiled).nodes.lookup nodeId =
      (compiled.nodes.lookup nodeId).map (snapshotNode compiled.toCompiledWorkflow nodeId) :=
  Assoc.lookup_map (snapshotNode compiled.toCompiledWorkflow) nodeId compiled.nodes

/-- The stored snapshot marks as exits exactly the nodes the exit record has, and
with the same mount paths, where no exit is an entry. -/
theorem exitMountPath_snapshot {compiled : ExecutableWorkflow} {nodeId : String}
    (hmarks : ∀ exit, compiled.exits.lookup nodeId = some exit →
      compiled.entries.lookup nodeId = none)
    {node : AuthoredNode} (hnode : compiled.nodes.lookup nodeId = some node) :
    exitMountPath (createDefinitionSnapshot compiled) nodeId =
      (compiled.exits.lookup nodeId).map ExitMetadata.mountPath := by
  simp only [exitMountPath, snapshot_lookup, hnode, Option.map_some]
  cases hexit : compiled.exits.lookup nodeId with
  | none =>
      simp only [snapshotNode, hexit]
      split
      · rw [if_neg (by decide)]; rfl
      · rfl
  | some exit =>
      simp [snapshotNode, hexit, hmarks exit hexit, joinText_splitText]

/-! ## Rows -/

/-- A text that `toISOString` printed and `Date.parse` reads. -/
def IsTimestamp (dateParse : String → Option Int) (toISOString : Int → String)
    (text : String) : Prop :=
  ∃ t, dateParse text = some t ∧ toISOString t = text

section

variable {sha256 : String → String} {dateParse : String → Option Int}
  {toISOString : Int → String}

theorem outcomeForStatus_outcomeStatus (outcome : NodeOutcome) :
    outcomeForStatus (outcomeStatus outcome) = .ok outcome := by
  cases outcome <;> rfl

/-- A result with its JSON in canonical order. -/
def NodeResult.normalize (result : NodeResult) : NodeResult :=
  { result with output := result.output.map normalizeJson }

/-- An output is read back from wherever it was left: a linked response entry
has been checked to say the same. -/
theorem readOutput_storeStep {row : StepRow} {output : Json} {response : Option String}
    (hrow : row.output = if response.isSome then none else some (normalizeJson output))
    (hentry : row.responseEntry = response)
    (hsame : ∀ text ∈ response, canonicalJson output = canonicalJson (.str text)) :
    row.readOutput = normalizeJson output := by
  rw [StepRow.readOutput, hrow, hentry]
  cases response with
  | none => rfl
  | some text => exact (canonicalJson_eq_iff.1 (hsame text rfl)).symm

/-- A row gives back the step it was made of, with its JSON in canonical order,
whether the output went into the row or stayed in the response entry. -/
theorem readStep_storeStep {entries : AttemptEntries} {step : StepRecord} {row : StepRow}
    {output : Json} (hrow : storeStep sha256 dateParse entries step = .ok row)
    (houtput : step.output = some output)
    (hsettings : step.settingsScopeId.isSome = step.settingsChangeNumber.isSome ∧
      step.settingsChangeNumber.isSome = step.settingsHash.isSome)
    (hstarted : IsTimestamp dateParse toISOString step.startedAt)
    (hfinished : IsTimestamp dateParse toISOString step.finishedAt) :
    ∃ read, readStep toISOString row = .ok read ∧ read.nodeId = step.nodeId ∧
      read.outcome = step.outcome ∧ read.output = some (normalizeJson output) ∧
      resultForStep dateParse read = (resultForStep dateParse step).normalize := by
  obtain ⟨started, hparse, hprint⟩ := hstarted
  obtain ⟨finished, hparse', hprint'⟩ := hfinished
  simp only [storeStep, hparse, hparse', houtput, bind_ok, orThrow_ok, require_ok, pure_ok] at hrow
  obtain ⟨_, hs, _, hf, _, hresponse, hrow⟩ := hrow
  cases hs
  cases hf
  have hread : row.readOutput = normalizeJson output := by
    subst hrow
    refine readOutput_storeStep rfl rfl ?_
    exact fun text htext => Option.some.inj (hresponse text htext).1
  refine ⟨row.step toISOString step.outcome, ?_, ?_, rfl, congrArg some hread, ?_⟩ <;> subst hrow
  · simp only [readStep, outcomeForStatus_outcomeStatus, requireSettingsBinding, bind_ok,
      require_ok, pure_ok]
    exact ⟨_, rfl, .unit, hsettings, rfl⟩
  · rfl
  · simp only [resultForStep, NodeResult.normalize, StepRow.step, houtput, hread, hprint, hprint']
    split <;> rfl

/-! ## Attempts -/

variable {compiled : ExecutableWorkflow}

theorem stepOfAttempt_output (dateParse : String → Option Int) (a : FinishedAttempt compiled.toCompiledWorkflow) :
    ∃ output, (stepOfAttempt (a.attempt dateParse)).output = some output := ⟨_, rfl⟩

theorem stepOfAttempt_settings (attempt : NodeAttempt) :
    (stepOfAttempt attempt).settingsScopeId.isSome =
        (stepOfAttempt attempt).settingsChangeNumber.isSome ∧
      (stepOfAttempt attempt).settingsChangeNumber.isSome =
        (stepOfAttempt attempt).settingsHash.isSome := by
  simp only [stepOfAttempt, Option.isSome_map]
  trivial

/-- A recorded step says everything the result of its attempt did. -/
theorem resultForStep_stepOfAttempt (a : FinishedAttempt compiled.toCompiledWorkflow) :
    resultForStep dateParse (stepOfAttempt (a.attempt dateParse)) =
      (a.attempt dateParse).result := by
  obtain ⟨_, _, _, _, _, _, ending, _⟩ := a
  cases ending with
  | returned output execution => rfl
  | threw outcome notOk error promptText action =>
      simp [FinishedAttempt.attempt, resultForStep, stepOfAttempt, createNodeResult, notOk]

/-- An attempt that ended well has an output, and its step the same one. -/
theorem attempt_output_of_ok (a : FinishedAttempt compiled.toCompiledWorkflow)
    (hok : (a.attempt dateParse).result.outcome = .ok) :
    (stepOfAttempt (a.attempt dateParse)).output = (a.attempt dateParse).result.output := by
  obtain ⟨_, _, _, _, _, _, ending, _⟩ := a
  cases ending with
  | returned output execution => rfl
  | threw outcome notOk error promptText action => exact absurd hok notOk

theorem attempt_nodeId (dateParse : String → Option Int) (a : FinishedAttempt compiled.toCompiledWorkflow) :
    (a.attempt dateParse).result.nodeId = a.nodeId := by
  obtain ⟨_, _, _, _, _, _, ending, _⟩ := a
  cases ending <;> rfl

theorem attempt_times (dateParse : String → Option Int) (a : FinishedAttempt compiled.toCompiledWorkflow) :
    (stepOfAttempt (a.attempt dateParse)).startedAt = a.startedAt ∧
      (stepOfAttempt (a.attempt dateParse)).finishedAt = a.finishedAt := by
  obtain ⟨_, _, _, _, _, _, ending, _⟩ := a
  cases ending <;> exact ⟨rfl, rfl⟩

end

/-! ## One attempt -/

/-- The two maps the live engine holds. -/
def RunState.projection (state : RunState NodeResult) : Projection :=
  ⟨state.outputs, state.results⟩

/-- A projection with all its JSON in canonical order. -/
def Projection.normalize (p : Projection) : Projection where
  outputs := Assoc.mapValues (Option.map normalizeJson) p.outputs
  results := Assoc.mapValues NodeResult.normalize p.results

section

variable {dateParse : String → Option Int} {workflow : AuthoredWorkflow}
  {compiled : ExecutableWorkflow}

/-- Folding the stored step of an attempt does to the rebuilt maps what
recording the attempt does to the live ones. -/
theorem projectStep_recordAttempt (hnamed : workflow.wellNamed = true)
    (hcompile : compileWorkflowDefinition workflow = .ok compiled.toCompiledWorkflow)
    (state : RunState NodeResult) (a : FinishedAttempt compiled.toCompiledWorkflow) {read : StepRecord}
    (hnode : read.nodeId = a.nodeId)
    (hresult : resultForStep dateParse read = (a.attempt dateParse).result.normalize)
    (houtput : (a.attempt dateParse).result.outcome = .ok →
      read.output = (a.attempt dateParse).result.output.map normalizeJson) :
    projectStep dateParse (createDefinitionSnapshot compiled) state.projection.normalize read =
      (recordAttempt compiled.toCompiledWorkflow state (a.attempt dateParse)).projection.normalize := by
  have hnodeId := attempt_nodeId dateParse a
  have houtcome : read.outcome = (a.attempt dateParse).result.outcome :=
    congrArg NodeResult.outcome hresult
  simp only [projectStep, recordAttempt, hresult, hnode, hnodeId, houtcome,
    exitMountPath_snapshot (fun _ => compiled_exit_notEntry hnamed hcompile) a.declared]
  by_cases hok : (a.attempt dateParse).result.outcome = .ok
  · simp only [if_pos hok, houtput hok]
    cases compiled.exits.lookup a.nodeId with
    | none =>
        simp only [Option.map_none, Projection.normalize, RunState.projection, clearAttempt,
          Assoc.mapValues_setKey]
    | some exit =>
        simp only [Option.map_some, Projection.normalize, RunState.projection, clearAttempt,
          Assoc.mapValues_setKey]
        rfl
  · simp only [if_neg hok]
    cases compiled.exits.lookup a.nodeId <;>
      simp only [Option.map_none, Option.map_some, Projection.normalize, RunState.projection,
        clearAttempt, Assoc.mapValues_setKey, Assoc.mapValues_eraseKey]

/-! ## Runs -/

variable {sha256 : String → String} {toISOString : Int → String}

/-- What the stored rows of some attempts read back as, folded over the maps the
engine held before them, are the maps the engine holds after them. -/
theorem foldl_projectStep (hnamed : workflow.wellNamed = true)
    (hcompile : compileWorkflowDefinition workflow = .ok compiled.toCompiledWorkflow)
    {entries : StepRecord → AttemptEntries} {attempts : List (FinishedAttempt compiled.toCompiledWorkflow)}
    (htimes : ∀ a ∈ attempts, IsTimestamp dateParse toISOString a.startedAt ∧
      IsTimestamp dateParse toISOString a.finishedAt)
    {rows : List StepRow}
    (hrows : attempts.mapM (fun a => storeStep sha256 dateParse
      (entries (stepOfAttempt (a.attempt dateParse))) (stepOfAttempt (a.attempt dateParse))) =
        .ok rows)
    (state : RunState NodeResult) :
    ∃ steps, rows.mapM (readStep toISOString) = .ok steps ∧
      steps.foldl (projectStep dateParse (createDefinitionSnapshot compiled))
          state.projection.normalize =
        (attempts.foldl (fun s a => recordAttempt compiled.toCompiledWorkflow s (a.attempt dateParse))
          state).projection.normalize := by
  induction attempts generalizing rows state with
  | nil =>
      simp only [List.mapM_nil, pure_ok] at hrows
      subst hrows
      exact ⟨[], rfl, rfl⟩
  | cons a rest ih =>
      simp only [List.mapM_cons, bind_ok, pure_ok] at hrows
      obtain ⟨row, hrow, more, hmore, rfl⟩ := hrows
      obtain ⟨output, houtput⟩ := stepOfAttempt_output dateParse a
      obtain ⟨hstarted, hfinished⟩ := htimes a List.mem_cons_self
      obtain ⟨hs, hf⟩ := attempt_times dateParse a
      obtain ⟨read, hread, hnode, -, hout, hresult⟩ := readStep_storeStep hrow houtput
        (stepOfAttempt_settings _) (hs ▸ hstarted) (hf ▸ hfinished)
      obtain ⟨steps, hsteps, hfold⟩ := ih (fun b hb => htimes b (List.mem_cons_of_mem _ hb))
        hmore (recordAttempt compiled.toCompiledWorkflow state (a.attempt dateParse))
      refine ⟨read :: steps, ?_, ?_⟩
      · simp only [List.mapM_cons, hread, hsteps, bind_ok, pure_ok]
        exact ⟨read, rfl, steps, rfl, rfl⟩
      · rw [List.foldl_cons, List.foldl_cons, ← hfold]
        congr 1
        refine projectStep_recordAttempt hnamed hcompile state a ?_ ?_ ?_
        · rw [hnode]; exact attempt_nodeId dateParse a
        · rw [hresult, resultForStep_stepOfAttempt]
        · intro hok
          rw [hout, ← attempt_output_of_ok a hok, houtput]
          rfl

/-- The steps of a run are the steps of its attempts. -/
theorem foldl_recordAttempt_steps (attempts : List (FinishedAttempt compiled.toCompiledWorkflow))
    (state : RunState NodeResult) :
    (attempts.foldl (fun s a => recordAttempt compiled.toCompiledWorkflow s (a.attempt dateParse)) state).steps =
      state.steps ++ attempts.map fun a => stepOfAttempt (a.attempt dateParse) := by
  induction attempts generalizing state with
  | nil => simp
  | cons a rest ih =>
      rw [List.foldl_cons, ih]
      show (state.steps ++ [stepOfAttempt (a.attempt dateParse)]) ++ _ = _
      rw [List.append_assoc]
      rfl

/-- Whatever attempts a run of a compiled workflow finished, the maps rebuilt
from its stored steps are the maps the engine held. -/
theorem buildProjection_eq_live (hnamed : workflow.wellNamed = true)
    (hcompile : compileWorkflowDefinition workflow = .ok compiled.toCompiledWorkflow)
    {attempts : List (FinishedAttempt compiled.toCompiledWorkflow)}
    (htimes : ∀ a ∈ attempts, IsTimestamp dateParse toISOString a.startedAt ∧
      IsTimestamp dateParse toISOString a.finishedAt)
    {fresh live : RunState NodeResult} (hfresh : fresh.steps = [] ∧ fresh.projection = {})
    (hlive : live =
      attempts.foldl (fun s a => recordAttempt compiled.toCompiledWorkflow s (a.attempt dateParse)) fresh)
    {entries : StepRecord → AttemptEntries} {rows : List StepRow}
    (hrows : live.steps.mapM (fun step => storeStep sha256 dateParse (entries step) step) =
      .ok rows) :
    ∃ steps, rows.mapM (readStep toISOString) = .ok steps ∧
      buildProjection dateParse (createDefinitionSnapshot compiled) steps =
        live.projection.normalize := by
  obtain ⟨hsteps, hempty⟩ := hfresh
  rw [hlive, foldl_recordAttempt_steps, hsteps, List.nil_append, List.mapM_map] at hrows
  obtain ⟨steps, hread, hfold⟩ := foldl_projectStep hnamed hcompile htimes hrows fresh
  refine ⟨steps, hread, ?_⟩
  rw [hlive, ← hfold, hempty]
  rfl

end

/-- A workflow that mounts a child and ends behind the child's exit. -/
def reviewWorkflow : AuthoredWorkflow :=
  .mk "review" "draft" none false [("draft", { nodeType := .compute })] [.plain "draft" "check"] []
    (.mount "check" false
      (.mk "check" "judge" none false [("judge", { nodeType := .compute })] []
        [("done", "judge")] .none) .none)

def reviewCompiled : ExecutableWorkflow where
  toCompiledWorkflow := (compileWorkflowDefinition reviewWorkflow).toOption.get (by decide)
  valid := rfl

/-- Enter the child, fail in it, run it to its exit. -/
def reviewAttempts : List (FinishedAttempt reviewCompiled.toCompiledWorkflow) :=
  let at0 := "1970-01-01T00:00:00.000Z"
  [⟨"a1", "check", { nodeType := .compute, statusDetail := some "entering check" }, rfl, at0, at0,
      .returned (.str "entered") {}, none⟩,
   ⟨"a2", "check/judge", { nodeType := .compute }, rfl, at0, at0,
      .threw .failed (by decide) "no" none none, none⟩,
   ⟨"a3", "check/judge", { nodeType := .compute }, rfl, at0, at0,
      .returned (.obj [("b", .null), ("a", .null)]) {}, none⟩,
   ⟨"a4", "check/__piw_exit_done",
      { nodeType := .compute, statusDetail := some "leaving check through done" }, rfl, at0, at0,
      .returned (.bool true) {}, none⟩]

theorem reviewRun_projection :
    ∃ (rows : List StepRow) (steps : List StepRecord) (live : RunState NodeResult),
      live = reviewAttempts.foldl
        (fun s a => recordAttempt reviewCompiled.toCompiledWorkflow s (a.attempt fun _ => some 0))
        { runId := "r", status := .running } ∧
      rows.mapM (readStep fun _ => "1970-01-01T00:00:00.000Z") = .ok steps ∧
      buildProjection (fun _ => some 0) (createDefinitionSnapshot reviewCompiled) steps =
        live.projection.normalize := by
  have hrows : (reviewAttempts.foldl
      (fun s a => recordAttempt reviewCompiled.toCompiledWorkflow s (a.attempt fun _ => some 0))
      { runId := "r", status := .running }).steps.mapM
        (fun step => storeStep id (fun _ => some 0) {} step) = .ok _ := rfl
  have htimes : ∀ a ∈ reviewAttempts,
      IsTimestamp (fun _ => some 0) (fun _ => "1970-01-01T00:00:00.000Z") a.startedAt ∧
        IsTimestamp (fun _ => some 0) (fun _ => "1970-01-01T00:00:00.000Z") a.finishedAt := by
    intro a ha
    simp only [reviewAttempts, List.mem_cons, List.not_mem_nil, or_false] at ha
    rcases ha with rfl | rfl | rfl | rfl <;> exact ⟨⟨0, rfl, rfl⟩, ⟨0, rfl, rfl⟩⟩
  obtain ⟨steps, hread, hmaps⟩ := buildProjection_eq_live (show reviewWorkflow.wellNamed = true by decide)
    (show compileWorkflowDefinition reviewWorkflow = .ok reviewCompiled.toCompiledWorkflow from rfl) htimes ⟨rfl, rfl⟩ rfl hrows
  exact ⟨_, steps, _, rfl, hread, hmaps⟩

end PiWorkflows
