import Mathlib.Data.List.Dedup
import PiWorkflows.Proofs.MountOutput
import PiWorkflows.Workflows.RunView

/-!
# A view of a run needs the last step of each node

The maps of a run are built by overwriting, and a step writes the key of its node,
or, where it leaves a mount, the key of the mount, which is also the key of the
mount's entry. A step that is not the last of its node can be left out unless it
wrote a key that nobody has written since, and the only step that could be is an
exit that went well and failed later. Between the two the run has come in again
through the entry, which writes that key (`written_last`).
-/

namespace PiWorkflows

open Fallible

/-! ## The rows that are read -/

section Rows

variable {toISOString : Int → String} {runId : String} {steps : RunSteps}

theorem unique_index {row other : Nat × StepRow} (hrow : row ∈ steps.rows)
    (hother : other ∈ steps.rows) (h : row.1 = other.1) : row = other := by
  have hnodup : (steps.rows.map Prod.fst).Nodup := by
    rw [List.nodup_iff_pairwise_ne, List.pairwise_map]
    exact steps.ordered.imp Nat.ne_of_lt
  exact List.inj_on_of_nodup_map hnodup hrow hother h

/-- A row is read if it has the highest index of its node. -/
theorem mem_latestIndexes {row : Nat × StepRow} (hrow : row ∈ steps.rows) :
    row.1 ∈ steps.latestIndexes none ↔
      ∀ other ∈ steps.rows, other.2.nodeId = row.2.nodeId → other.1 ≤ row.1 := by
  have hvisible : (steps.rows.filter fun other =>
      (none : Option Nat).all fun last => other.1 ≤ last) = steps.rows :=
    List.filter_eq_self.2 fun _ _ => rfl
  simp only [RunSteps.latestIndexes, hvisible, List.mem_filterMap, List.mem_dedup, List.mem_map]
  constructor
  · rintro ⟨nodeId, -, hmax⟩
    obtain ⟨hmem, hhigh⟩ := List.max?_eq_some_iff.1 hmax
    obtain ⟨other, hother, hindex⟩ := List.mem_map.1 hmem
    obtain ⟨hother, hnode⟩ := List.mem_filter.1 hother
    -- two rows with one index are one row
    obtain rfl : other = row := unique_index hother hrow hindex
    intro another hanother hsame
    refine hhigh _ (List.mem_map_of_mem (List.mem_filter.2 ⟨hanother, ?_⟩))
    rw [decide_eq_true_eq] at hnode ⊢
    exact hsame.trans hnode
  · intro hhigh
    refine ⟨row.2.nodeId, ⟨row, hrow, rfl⟩, List.max?_eq_some_iff.2 ⟨?_, ?_⟩⟩
    · exact List.mem_map_of_mem (List.mem_filter.2 ⟨hrow, decide_eq_true rfl⟩)
    · intro index hindex
      obtain ⟨other, hother, rfl⟩ := List.mem_map.1 hindex
      obtain ⟨hother, hnode⟩ := List.mem_filter.1 hother
      exact hhigh other hother (of_decide_eq_true hnode)

theorem mapStepRows_none {rows : List (Nat × StepRow)} {records : List StepRecord} :
    mapStepRows toISOString runId rows none = .ok records ↔
      List.Forall₂ (fun row record => readStep toISOString row.2 = .ok record) rows records := by
  have hrow : ∀ (e : (Nat × StepRow) × Nat) (record : StepRecord),
      (do
        require (∀ start ∈ (none : Option Nat), e.1.1 = start + e.2)
          s!"Workflow run step sequence has a gap: {runId}"
        readStep toISOString e.1.2) = .ok record ↔ readStep toISOString e.1.2 = .ok record := by
    intro e record
    simp
  rw [mapStepRows, mapM_ok]
  simp only [hrow]
  have hfst : ∀ (rows : List (Nat × StepRow)), rows.zipIdx.map Prod.fst = rows :=
    fun rows => List.zipIdx_map_fst 0 rows
  nth_rewrite 2 [← hfst rows]
  exact (List.forall₂_map_left_iff
    (R := fun (row : Nat × StepRow) record => readStep toISOString row.2 = .ok record)).symm

theorem readSteps_rows {records : List StepRecord}
    (h : readSteps toISOString runId steps = .ok records) :
    List.Forall₂ (fun row record => readStep toISOString row.2 = .ok record) steps.rows records := by
  rw [readSteps, mapStepRows, mapM_ok] at h
  have hread := h.imp fun e record hrow => by
    simp only [bind_ok] at hrow
    obtain ⟨_, -, hrow⟩ := hrow
    exact (hrow : readStep toISOString e.1.2 = .ok record)
  have hrows : List.Forall₂ (fun (row : Nat × StepRow) record =>
      readStep toISOString row.2 = .ok record) (steps.rows.zipIdx.map Prod.fst) records :=
    List.forall₂_map_left_iff.2 hread
  rwa [List.zipIdx_map_fst] at hrows

theorem readStep_nodeId {row : StepRow} {record : StepRecord}
    (h : readStep toISOString row = .ok record) : record.nodeId = row.nodeId := by
  simp only [readStep, bind_ok, pure_ok] at h
  obtain ⟨outcome, -, _, -, rfl⟩ := h
  rfl

/-- The last steps are what is left of all steps. -/
theorem readLatestSteps_of_readSteps {records : List StepRecord}
    (h : readSteps toISOString runId steps = .ok records) :
    readLatestSteps toISOString runId steps none = .ok (Latest.lastPer StepRecord.nodeId records) := by
  have hrows : (steps.rows.filter fun row => row.1 ∈ steps.latestIndexes none) =
      Latest.lastPer (fun row : Nat × StepRow => row.2.nodeId) steps.rows := by
    rw [← Latest.filter_highest Prod.fst steps.ordered]
    exact List.filter_congr fun row hrow => decide_eq_decide.2 (mem_latestIndexes hrow)
  rw [readLatestSteps, hrows, mapStepRows_none]
  exact Latest.forall₂_lastPer (fun _ _ hread => (readStep_nodeId hread).symm) (readSteps_rows h)

end Rows

/-! ## The steps that are left out -/

section Walks

variable {dateParse : String → Option Int} {workflow : AuthoredWorkflow}
  {compiled : ExecutableWorkflow}

/-- An exit leads to where the mount stands, back to the entry or past it. -/
theorem Composed.exit_leads (hof : Composed workflow compiled) {m : Mounting}
    (hm : m ∈ workflow.mountings "") {exit : String × String} (hexit : exit ∈ m.child.exits)
    {b : String} (hnext : Worklist.Next (graphSuccessors compiled.edges) (exitNodeId m.path exit.1) b)
    (hb : b ∈ m.inside) : b = m.path := by
  have hexitName := hof.exitName hm hexit
  generalize hsource : exitNodeId m.path exit.1 = source at hnext
  cases hof.graphStep hnext with
  | own hscope hnode htarget =>
      have hname := (hof.shape _ hscope).names.nodes _ hnode
      exact absurd hsource.symm (qualify_ne_exitNodeId hname hexitName)
  | entry hm' htarget =>
      exact absurd hsource.symm (qualify_ne_exitNodeId (hof.mounting hm').name hexitName)
  | @exit m' exit' target hm' hexit' htarget =>
      have hpath := ((exitNodeId_inj (isNodeId_of_authored hexitName)
        (isNodeId_of_authored (hof.exitName hm' hexit'))).1 hsource).1
      obtain rfl : m = m' := List.inj_on_of_nodup_map hof.nodup_mountPaths hm hm' hpath
      exact hof.beside_mount hm htarget hb

/-- Whoever wrote a key last is the last of its node. -/
theorem Composed.written_last (hof : Composed workflow compiled) {key : String}
    {before after : List StepRecord} {step : StepRecord}
    (hwalk : ((before ++ step :: after).map StepRecord.nodeId).IsChain
      (Worklist.Next (graphSuccessors compiled.edges)))
    (hwrites : step.Writes compiled.toCompiledWorkflow key)
    (hsilent : ∀ later ∈ after, ¬ later.Writes compiled.toCompiledWorkflow key) :
    ∀ later ∈ after, later.nodeId ≠ step.nodeId := by
  intro later hlater hsame
  rcases hwrites with hnode | hleaves
  · exact hsilent later hlater (.inl (hsame.trans hnode))
  · rw [StepRecord.leaves] at hleaves
    split at hleaves
    · obtain ⟨exit, hexit, rfl⟩ := Option.map_eq_some_iff.1 hleaves
      obtain ⟨m, hm, declared, hdeclared, heq⟩ := hof.exit_iff.1 hexit
      obtain ⟨hid, rfl⟩ := Prod.mk.inj heq
      obtain ⟨between, rest, rfl⟩ := List.append_of_mem hlater
      have hwalk' : (step.nodeId :: between.map StepRecord.nodeId ++ [later.nodeId]).IsChain
          (Worklist.Next (graphSuccessors compiled.edges)) := by
        rw [List.map_append, List.isChain_append] at hwalk
        have hbehind := hwalk.2.1
        rw [List.map_cons, List.map_append, List.map_cons, ← List.singleton_append (l := rest.map _),
          ← List.append_assoc, ← List.cons_append, List.isChain_append] at hbehind
        exact hbehind.1
      have hinside : later.nodeId ∈ (hof.region hm).inside := by
        rw [hsame, hid]
        have hexitId := isNodeId_exit (isNodeId_of_authored (hof.exitName hm hdeclared))
        exact (Composed.inside_below hexitId (List.prefix_refl _)).1
      have hleads : ∀ c, Worklist.Next (graphSuccessors compiled.edges) step.nodeId c →
          c ∈ (hof.region hm).inside → c = (hof.region hm).entry := by
        intro c hnext hc
        exact hof.exit_leads hm hdeclared (hid ▸ hnext) hc
      have hentered := Region.reentered hwalk' hleads hinside
      rw [← List.map_singleton (f := StepRecord.nodeId) (a := later), ← List.map_append] at hentered
      obtain ⟨entered, hmem, hentry⟩ := List.mem_map.1 hentered
      refine hsilent entered ?_ (.inl hentry)
      rcases List.mem_append.1 hmem with hmem | hmem
      · exact List.mem_append_left _ hmem
      · rw [List.mem_singleton.1 hmem]
        exact hlater
    · cases hleaves

variable {toISOString : Int → String} {runId : String} {steps : RunSteps}

/-- The maps that a view builds from the last step of each node are the maps that
are built from all steps, for every run of a compiled graph that walks it. -/
theorem viewMaps_eq_materialized (hof : Composed workflow compiled) {records : List StepRecord}
    {maps : Projection} (hread : readSteps toISOString runId steps = .ok records)
    (hwalk : (records.map StepRecord.nodeId).IsChain (Worklist.Next (graphSuccessors compiled.edges)))
    (hmaps : materializedMaps dateParse toISOString runId (createDefinitionSnapshot compiled) steps =
      .ok maps) :
    ∃ view, viewMaps dateParse toISOString runId (createDefinitionSnapshot compiled) steps = .ok view ∧
      ∀ key, view.outputs.lookup key = maps.outputs.lookup key ∧
        view.results.lookup key = maps.results.lookup key := by
  simp only [materializedMaps, hread, bind_ok, pure_ok] at hmaps
  obtain ⟨_, heq, rfl⟩ := hmaps
  cases heq
  refine ⟨buildProjection dateParse (createDefinitionSnapshot compiled)
    (Latest.lastPer StepRecord.nodeId records), ?_, fun key => ⟨?_, ?_⟩⟩
  · simp only [viewMaps, readLatestSteps_of_readSteps hread, bind_ok, pure_ok]
    exact ⟨_, rfl, rfl⟩
  · rw [hof.lookup_outputs, hof.lookup_outputs]
    refine congrArg Option.join (Latest.latest_lastPer ?_)
    rintro before step after rfl hwritten hsilent
    refine hof.written_last hwalk ((writtenOutput_ne_none _).1 hwritten) fun later hlater hwrites => ?_
    exact (writtenOutput_ne_none _).2 hwrites (hsilent later hlater)
  · rw [hof.lookup_results, hof.lookup_results]
    refine congrArg Option.join (Latest.latest_lastPer ?_)
    rintro before step after rfl hwritten hsilent
    refine hof.written_last hwalk ((writtenResult_ne_none _ _).1 hwritten) fun later hlater hwrites => ?_
    exact (writtenResult_ne_none _ _).2 hwrites (hsilent later hlater)

end Walks

/-! ## A mount that is entered again -/

/-- The child is tried again until its exit goes well. -/
def retryWorkflow : AuthoredWorkflow :=
  .mk "retry" "draft" none false
    [("draft", { nodeType := .compute }), ("finish", { nodeType := .compute })]
    [.plain "draft" "check",
      .switch "check.done" "$result.outcome" [("ok", "finish"), ("failed", "check")]] []
    (.mount "check" false
      (.mk "check" "judge" none false [("judge", { nodeType := .compute })] []
        [("done", "judge")] .none) .none)

def retryCompiled : ExecutableWorkflow where
  toCompiledWorkflow := (compileWorkflowDefinition retryWorkflow).toOption.get (by decide)
  valid := rfl

theorem retryComposed : Composed retryWorkflow retryCompiled where
  shape := by
    intro scope hscope
    change scope ∈ [_, _] at hscope
    simp only [List.mem_cons, List.not_mem_nil, or_false] at hscope
    rcases hscope with rfl | rfl <;> exact ⟨by decide, by decide, by decide, rfl⟩
  compiles := rfl

def attemptRow (attemptId nodeId : String) (status : AttemptStatus) (output : Option Json) : StepRow where
  attemptId := attemptId
  nodeId := nodeId
  nodeType := .compute
  status := status
  prompt := none
  output := output
  receipt := ⟨none, none⟩
  error := none
  promptEntry := none
  responseEntry := none
  conversation := none
  settingsScopeId := none
  settingsChangeNumber := none
  settingsHash := none
  startedAt := 0
  finishedAt := 0

/-- The first exit has written the key of the mount, and a later exit has failed. -/
def retriedSteps : RunSteps where
  rows :=
    [(0, attemptRow "a1" "draft" .completed (some (.str "draft"))),
      (1, attemptRow "a2" "check" .completed (some (.str "first"))),
      (2, attemptRow "a3" "check/judge" .completed (some (.str "poor"))),
      (3, attemptRow "a4" "check/__piw_exit_done" .completed (some (.str "left"))),
      (4, attemptRow "a5" "check" .completed (some (.str "second"))),
      (5, attemptRow "a6" "check/judge" .completed (some (.str "fine"))),
      (6, attemptRow "a7" "check/__piw_exit_done" .failed none)]
  ordered := by decide

def retriedRecords : List StepRecord :=
  retriedSteps.rows.filterMap fun row => (readStep (fun _ => "") row.2).toOption

theorem retriedSteps_view :
    ∃ view, viewMaps (fun _ => some 0) (fun _ => "") "r" (createDefinitionSnapshot retryCompiled)
        retriedSteps = .ok view ∧
      ∀ key, view.outputs.lookup key =
          (buildProjection (fun _ => some 0) (createDefinitionSnapshot retryCompiled)
            retriedRecords).outputs.lookup key ∧
        view.results.lookup key =
          (buildProjection (fun _ => some 0) (createDefinitionSnapshot retryCompiled)
            retriedRecords).results.lookup key :=
  viewMaps_eq_materialized retryComposed
    (show readSteps (fun _ => "") "r" retriedSteps = .ok retriedRecords from rfl)
    (show List.IsChain (fun a b => b ∈ graphSuccessors retryCompiled.edges a)
      ["draft", "check", "check/judge", "check/__piw_exit_done", "check", "check/judge",
        "check/__piw_exit_done"] by decide)
    rfl

end PiWorkflows
