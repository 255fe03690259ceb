import Mathlib.Data.List.Chain
import PiWorkflows.Lib.Latest
import PiWorkflows.Proofs.CompiledRecords
import PiWorkflows.Proofs.Projection
import PiWorkflows.Workflows.Engine

/-!
# What holds in every run of the engine

The recorded steps of a run and the node it stands on are a walk of the compiled
graph, whatever fails, is cut off or taken over by another process. The two maps
of a state are those that can be rebuilt from its steps (`EngineInv`), so what
they hold under a key is what the latest step has written that writes the key.
-/

namespace PiWorkflows

open Fallible

/-! ## Routes -/

section

variable {edges : List WorkflowEdge} {source id : String} {output result : JsRef}

theorem outgoingEdge_some {edge : WorkflowEdge} (h : outgoingEdge edges source = some edge) :
    edge ∈ edges ∧ edge.source = source := by
  have hfound := List.find?_some h
  rw [decide_eq_true_eq] at hfound
  exact ⟨List.mem_of_find?_eq_some h, hfound⟩

theorem resolveSwitchTarget_node {on : String} {cases : List (String × String)}
    (h : resolveSwitchTarget on cases output result = .ok (.node id)) :
    id ∈ cases.map Prod.snd := by
  simp only [resolveSwitchTarget, bind_ok] at h
  obtain ⟨value, -, h⟩ := h
  split at h
  · cases h
  · split at h
    · next target hcase =>
        split at h
        · cases h
        · cases h
          exact List.mem_map_of_mem (Assoc.mem_of_lookup hcase)
    · split at h <;> cases h

/-- A route leads along an edge. -/
theorem resolveNext_node (h : resolveNext edges source output result = .ok (some (.node id))) :
    Worklist.Next (graphSuccessors edges) source id := by
  unfold resolveNext at h
  split at h
  · cases h
  · next target hedge =>
      cases h
      obtain ⟨hmem, hsource⟩ := outgoingEdge_some hedge
      exact mem_graphSuccessors.2 ⟨_, hmem, hsource, List.mem_singleton_self id⟩
  · next on cases hedge =>
      obtain ⟨target, htarget, heq⟩ := map_ok.1 h
      cases heq
      obtain ⟨hmem, hsource⟩ := outgoingEdge_some hedge
      exact mem_graphSuccessors.2 ⟨_, hmem, hsource, resolveSwitchTarget_node htarget⟩

theorem resolveNextForOutcome_node
    (h : resolveNextForOutcome edges source result = .ok (some (.node id))) :
    Worklist.Next (graphSuccessors edges) source id := by
  unfold resolveNextForOutcome at h
  split at h
  · cases h
  · cases h
  · next on cases hedge =>
      split at h
      · obtain ⟨target, htarget, heq⟩ := map_ok.1 h
        cases heq
        obtain ⟨hmem, hsource⟩ := outgoingEdge_some hedge
        exact mem_graphSuccessors.2 ⟨_, hmem, hsource, resolveSwitchTarget_node htarget⟩
      · cases h

variable {workflow : CompiledWorkflow} {ended : NodeResult}

theorem failureRoute_node
    (h : failureRoute workflow source ended = .ok (some (.node id))) :
    Worklist.Next (graphSuccessors workflow.edges) source id := by
  simp only [failureRoute, bind_ok, orThrow_ok, pure_ok] at h
  obtain ⟨next, hnext, target, rfl, heq⟩ := h
  cases heq
  exact resolveNextForOutcome_node hnext

theorem continueAfter_node (h : continueAfter workflow ended = .ok (some (.node id))) :
    Worklist.Next (graphSuccessors workflow.edges) ended.nodeId id := by
  unfold continueAfter at h
  split at h
  · exact resolveNext_node h
  · split at h
    · cases h
    · exact failureRoute_node h

end

/-! ## What a step writes -/

section

variable (dateParse : String → Option Int) (workflow : CompiledWorkflow)

/-- The mount that a step ends: it has run one of its exits. -/
def StepRecord.leaves (step : StepRecord) : Option String :=
  if step.outcome = .ok then (workflow.exits.lookup step.nodeId).map ExitMetadata.mountPath
  else none

/-- What a step leaves under a key of the outputs, where it touches it. -/
def writtenOutput (key : String) (step : StepRecord) : Option (Option (Option Json)) :=
  if step.leaves workflow = some key then some (some step.output)
  else if step.nodeId = key then some (if step.outcome = .ok then some step.output else none)
  else none

/-- What a step leaves under a key of the results, where it touches it. -/
def writtenResult (key : String) (step : StepRecord) : Option (Option NodeResult) :=
  if step.leaves workflow = some key then
    some (some { resultForStep dateParse step with nodeId := key })
  else if step.nodeId = key then some (some (resultForStep dateParse step))
  else none

/-- A step writes the key in both maps, or in none. -/
def StepRecord.Writes (step : StepRecord) (key : String) : Prop :=
  step.nodeId = key ∨ step.leaves workflow = some key

theorem writtenOutput_ne_none {key : String} {step : StepRecord} :
    writtenOutput workflow key step ≠ none ↔ step.Writes workflow key := by
  rw [writtenOutput, StepRecord.Writes]
  by_cases hleaves : step.leaves workflow = some key
  · simp [hleaves]
  · by_cases hnode : step.nodeId = key <;> simp [hleaves, hnode]

theorem writtenResult_ne_none {key : String} {step : StepRecord} :
    writtenResult dateParse workflow key step ≠ none ↔ step.Writes workflow key := by
  rw [writtenResult, StepRecord.Writes]
  by_cases hleaves : step.leaves workflow = some key
  · simp [hleaves]
  · by_cases hnode : step.nodeId = key <;> simp [hleaves, hnode]

end

namespace Composed

variable {workflow : AuthoredWorkflow} {compiled : ExecutableWorkflow}
  {dateParse : String → Option Int}

theorem exit_notEntry (h : Composed workflow compiled) {id : String} {exit : ExitMetadata}
    (hexit : compiled.exits.lookup id = some exit) : compiled.entries.lookup id = none := by
  obtain ⟨m, hm, declared, hdeclared, heq⟩ := h.exit_iff.1 hexit
  rw [Option.eq_none_iff_forall_ne_some]
  intro entry hentry
  obtain ⟨m', hm', heq'⟩ := h.entry_iff.1 hentry
  exact qualify_ne_exitNodeId (h.mounting hm').name (h.exitName hm hdeclared)
    ((Prod.mk.inj heq').1.symm.trans (Prod.mk.inj heq).1)

/-- The stored snapshot and the record of exits name the same mount for every id. -/
theorem exitMountPath (h : Composed workflow compiled) (id : String) :
    PiWorkflows.exitMountPath (createDefinitionSnapshot compiled) id =
      (compiled.exits.lookup id).map ExitMetadata.mountPath := by
  cases hnode : compiled.nodes.lookup id with
  | some node => exact exitMountPath_snapshot (fun _ => h.exit_notEntry) hnode
  | none =>
      have hexit : compiled.exits.lookup id = none := by
        rw [Option.eq_none_iff_forall_ne_some]
        intro exit hexit
        obtain ⟨m, hm, declared, hdeclared, heq⟩ := h.exit_iff.1 hexit
        have hmem := exit_mem_nodeIds (h.mounting hm).scope (h.mounting hm).path
          (List.mem_map_of_mem hdeclared)
        obtain rfl := (Prod.mk.inj heq).1
        obtain ⟨entry, hentry, hid⟩ := List.mem_map.1 ((h.spec.nodes _).2 ⟨h.ne_proto hmem, hmem⟩)
        rw [List.lookup_eq_none_iff] at hnode
        have hne := hnode entry hentry
        rw [hid] at hne
        exact absurd hne (by simp [Mounting.scope])
      rw [PiWorkflows.exitMountPath, snapshot_lookup, hnode, hexit]
      rfl

theorem leaves_eq (h : Composed workflow compiled) (step : StepRecord) :
    step.leaves compiled.toCompiledWorkflow = if step.outcome = .ok then
      PiWorkflows.exitMountPath (createDefinitionSnapshot compiled) step.nodeId else none := by
  rw [h.exitMountPath]
  rfl

/-- The outputs rebuilt from the steps: under a key is what was written last. -/
theorem lookup_outputs (h : Composed workflow compiled) (steps : List StepRecord) (key : String) :
    (buildProjection dateParse (createDefinitionSnapshot compiled) steps).outputs.lookup key =
      (Latest.latest (writtenOutput compiled.toCompiledWorkflow key) steps).join := by
  have hfold := Latest.foldl_latest (writtenOutput compiled.toCompiledWorkflow key)
    (projectStep dateParse (createDefinitionSnapshot compiled))
    (fun p : Projection => p.outputs.lookup key) ?_ {} steps
  · rw [buildProjection, hfold]
    cases Latest.latest (writtenOutput compiled.toCompiledWorkflow key) steps <;> rfl
  · intro p step
    rw [writtenOutput, h.leaves_eq, projectStep]
    by_cases hok : step.outcome = .ok
    · simp only [if_pos hok]
      cases PiWorkflows.exitMountPath (createDefinitionSnapshot compiled) step.nodeId with
      | none =>
          simp only [Assoc.lookup_setKey, reduceCtorEq, if_false, eq_comm (a := key)]
          split <;> rfl
      | some mountPath =>
          simp only [Assoc.lookup_setKey, Option.some.injEq, eq_comm (a := key)]
          split
          · rfl
          · split <;> rfl
    · simp only [if_neg hok]
      cases PiWorkflows.exitMountPath (createDefinitionSnapshot compiled) step.nodeId <;>
      · simp only [Assoc.lookup_eraseKey, reduceCtorEq, if_false, eq_comm (a := key)]
        split <;> rfl

theorem lookup_results (h : Composed workflow compiled) (steps : List StepRecord) (key : String) :
    (buildProjection dateParse (createDefinitionSnapshot compiled) steps).results.lookup key =
      (Latest.latest (writtenResult dateParse compiled.toCompiledWorkflow key) steps).join := by
  have hfold := Latest.foldl_latest (writtenResult dateParse compiled.toCompiledWorkflow key)
    (projectStep dateParse (createDefinitionSnapshot compiled))
    (fun p : Projection => p.results.lookup key) ?_ {} steps
  · rw [buildProjection, hfold]
    cases Latest.latest (writtenResult dateParse compiled.toCompiledWorkflow key) steps <;> rfl
  · intro p step
    rw [writtenResult, h.leaves_eq, projectStep]
    by_cases hok : step.outcome = .ok
    · simp only [if_pos hok]
      cases PiWorkflows.exitMountPath (createDefinitionSnapshot compiled) step.nodeId with
      | none =>
          simp only [Assoc.lookup_setKey, reduceCtorEq, if_false, eq_comm (a := key)]
          split <;> rfl
      | some mountPath =>
          simp only [Assoc.lookup_setKey, Option.some.injEq, eq_comm (a := key)]
          split
          · next heq => rw [heq]; rfl
          · split <;> rfl
    · simp only [if_neg hok]
      cases PiWorkflows.exitMountPath (createDefinitionSnapshot compiled) step.nodeId <;>
      · simp only [Assoc.lookup_setKey, reduceCtorEq, if_false, eq_comm (a := key)]
        split <;> rfl

/-- Recording an attempt does to the maps what folding its step does. -/
theorem projectStep_attempt (h : Composed workflow compiled) (state : RunState NodeResult)
    (a : FinishedAttempt compiled.toCompiledWorkflow) :
    projectStep dateParse (createDefinitionSnapshot compiled) state.projection
        (stepOfAttempt (a.attempt dateParse)) =
      (recordAttempt compiled.toCompiledWorkflow state (a.attempt dateParse)).projection := by
  have hnode : (stepOfAttempt (a.attempt dateParse)).nodeId = (a.attempt dateParse).result.nodeId :=
    rfl
  have houtcome : (stepOfAttempt (a.attempt dateParse)).outcome =
      (a.attempt dateParse).result.outcome := rfl
  simp only [projectStep, recordAttempt, resultForStep_stepOfAttempt, hnode, houtcome,
    h.exitMountPath]
  by_cases hok : (a.attempt dateParse).result.outcome = .ok
  · simp only [if_pos hok, attempt_output_of_ok a hok]
    cases compiled.exits.lookup (a.attempt dateParse).result.nodeId <;> rfl
  · simp only [if_neg hok]
    cases compiled.exits.lookup (a.attempt dateParse).result.nodeId <;> rfl

end Composed

/-! ## Actions -/

/-- The node a run stands on. -/
def Execution.node? (e : Execution) : Option String :=
  match e.next with
  | .ok (some (.node id)) => some id
  | _ => none

theorem Execution.node?_some {e : Execution} {id : String} :
    e.node? = some id ↔ e.next = .ok (some (.node id)) := by
  unfold Execution.node?
  split
  · next heq => rw [heq]; simp
  · next hne => exact iff_of_false nofun (hne id)

section

variable {sha256 : String → String} {dateParse : String → Option Int}
  {toISOString : Int → String} {compiled : ExecutableWorkflow} {e e' : Execution}

theorem startNode_ok {attemptId startedAt : String} {settings : Option SettingsBinding}
    (h : startNode compiled e attemptId startedAt settings = .ok e') :
    e'.state.steps = e.state.steps ∧ e'.state.projection = e.state.projection ∧
      e'.next = e.next ∧ e'.state.currentNode = e.node? ∧
      ∀ id, e.node? = some id → (compiled.nodes.lookup id).isSome = true := by
  simp only [startNode, bind_ok] at h
  obtain ⟨next, hnext, h⟩ := h
  split at h
  · next id =>
      simp only [bind_ok, orThrow_ok, pure_ok] at h
      obtain ⟨node, hnode, rfl⟩ := h
      have hstands := Execution.node?_some.2 hnext
      refine ⟨rfl, rfl, rfl, hstands.symm, fun id' hid' => ?_⟩
      obtain rfl := Option.some.inj (hstands.symm.trans hid')
      rw [hnode]
      rfl
  · cases h
  · cases h

/-- An attempt is recorded on the node in flight, and its end is one that node can have. -/
theorem finishNode_ok {run : NodeRun} {finishedAt : String}
    (h : finishNode dateParse compiled e run finishedAt = .ok e') :
    ∃ a : FinishedAttempt compiled.toCompiledWorkflow,
      e.state.currentNode = some a.nodeId ∧
      nodeEnd compiled.toCompiledWorkflow e.context a.nodeId run = .ok a.ending ∧
      e'.state = recordAttempt compiled.toCompiledWorkflow e.state (a.attempt dateParse) ∧
      e'.next = continueAfter compiled.toCompiledWorkflow (a.attempt dateParse).result := by
  simp only [finishNode, bind_ok, orThrow_ok] at h
  obtain ⟨nodeId, hnode, attemptId, -, startedAt, -, ending, hending, h⟩ := h
  split at h
  · cases h
  · simp only [pure_ok] at h
    subst h
    exact ⟨_, hnode, hending, rfl, rfl⟩

/-- The relation of a step to what is read back of it. -/
structure ReadBack (step read : StepRecord) : Prop where
  nodeId : read.nodeId = step.nodeId
  outcome : read.outcome = step.outcome
  output : ∀ output, step.output = some output → read.output = some (normalizeJson output)

theorem readBack_of_storeStep {entries : AttemptEntries} {step read : StepRecord} {row : StepRow}
    (hrow : storeStep sha256 dateParse entries step = .ok row)
    (hread : readStep toISOString row = .ok read) : ReadBack step read := by
  simp only [storeStep, bind_ok, orThrow_ok, require_ok, pure_ok] at hrow
  obtain ⟨started, -, finished, -, _, hresponse, rfl⟩ := hrow
  simp only [readStep, outcomeForStatus_outcomeStatus, bind_ok, pure_ok, Except.ok.injEq] at hread
  obtain ⟨outcome, rfl, _, -, rfl⟩ := hread
  refine ⟨rfl, rfl, fun output houtput => congrArg some ?_⟩
  refine readOutput_storeStep (by rw [houtput]; rfl) rfl fun text htext => ?_
  have hsame := (hresponse text htext).1
  rw [houtput] at hsame
  exact Option.some.inj hsame

theorem resumeRun_ok {entries : StepRecord → AttemptEntries} {keepsAttempt : Bool}
    (h : resumeRun sha256 dateParse toISOString compiled e entries keepsAttempt = .ok e') :
    List.Forall₂ ReadBack e.state.steps e'.state.steps ∧
      e'.state.projection = buildProjection dateParse (createDefinitionSnapshot compiled)
        e'.state.steps ∧
      (∀ id, e'.state.currentNode = some id → e.state.currentNode = some id) ∧
      e'.next = resumePointFor compiled.toCompiledWorkflow
        { e'.state with currentNode := e.state.currentNode } := by
  simp only [resumeRun, bind_ok, pure_ok] at h
  obtain ⟨rows, hrows, steps, hsteps, rfl⟩ := h
  refine ⟨?_, ?_, ?_, ?_⟩
  · have hread : List.Forall₂ ReadBack e.state.steps steps :=
      (mapM_trans hrows hsteps).imp fun _ _ h => by
        obtain ⟨_, hrow, hstep⟩ := h
        exact readBack_of_storeStep hrow hstep
    split <;> exact hread
  · split <;> rfl
  · intro id hid
    split at hid
    · exact hid
    · cases hid
  · split <;> rfl

/-! ## The invariant -/

/-- The nodes of the recorded steps, and the one the run stands on. -/
def Execution.path (e : Execution) : List String :=
  e.state.steps.map StepRecord.nodeId ++ e.node?.toList

structure EngineInv (dateParse : String → Option Int) (compiled : ExecutableWorkflow)
    (e : Execution) : Prop where
  walk : e.path.IsChain (Worklist.Next (graphSuccessors compiled.edges))
  starts : ∀ id ∈ e.path.head?, id = compiled.startAt
  outputs : ∀ step ∈ e.state.steps, ∃ output, step.output = some output
  exits : ∀ step ∈ e.state.steps, ∀ exit, compiled.exits.lookup step.nodeId = some exit →
    step.outcome = .ok → ∃ output, step.output = some (exitRecord exit.exitName output)
  projection : e.state.projection =
    buildProjection dateParse (createDefinitionSnapshot compiled) e.state.steps
  inFlight : ∀ id, e.state.currentNode = some id →
    e.node? = some id ∧ (compiled.nodes.lookup id).isSome = true

theorem engineInv_fresh (dateParse : String → Option Int) (compiled : ExecutableWorkflow)
    (runId : String) (input : Json) :
    EngineInv dateParse compiled (.fresh compiled.toCompiledWorkflow runId input) where
  walk := List.isChain_singleton compiled.startAt
  starts := by
    rintro id hid
    exact (Option.some.inj hid).symm
  outputs _ h := absurd h List.not_mem_nil
  exits _ h := absurd h List.not_mem_nil
  projection := rfl
  inFlight _ h := nomatch h

theorem EngineInv.start (hinv : EngineInv dateParse compiled e) {attemptId startedAt : String}
    {settings : Option SettingsBinding}
    (h : startNode compiled e attemptId startedAt settings = .ok e') :
    EngineInv dateParse compiled e' := by
  obtain ⟨hsteps, hprojection, hnext, hcurrent, hdeclared⟩ := startNode_ok h
  have hnode : e'.node? = e.node? := by rw [Execution.node?, Execution.node?, hnext]
  have hpath : e'.path = e.path := by rw [Execution.path, Execution.path, hsteps, hnode]
  constructor
  · rw [hpath]; exact hinv.walk
  · rw [hpath]; exact hinv.starts
  · rw [hsteps]; exact hinv.outputs
  · rw [hsteps]; exact hinv.exits
  · rw [hsteps, hprojection]; exact hinv.projection
  · intro id hid
    rw [hcurrent] at hid
    exact ⟨hnode.trans hid, hdeclared id hid⟩

/-- A walk goes on along an edge. -/
theorem path_append {edges : List WorkflowEdge} {ids : List String} {id : String}
    {next : Option String}
    (hwalk : (ids ++ [id]).IsChain (Worklist.Next (graphSuccessors edges)))
    (hnext : ∀ target ∈ next, Worklist.Next (graphSuccessors edges) id target) :
    (ids ++ [id] ++ next.toList).IsChain (Worklist.Next (graphSuccessors edges)) := by
  cases next with
  | none =>
      rw [Option.toList_none, List.append_nil]
      exact hwalk
  | some target =>
      refine List.isChain_append.2 ⟨hwalk, List.isChain_singleton target, ?_⟩
      intro last hlast first hfirst
      rw [List.getLast?_append] at hlast
      obtain rfl := Option.some.inj hlast
      obtain rfl := Option.some.inj hfirst
      exact hnext _ rfl

/-- The end of a generated exit node is its record. -/
theorem nodeEnd_exit {workflow : CompiledWorkflow} {context : NodeContext} {id : String}
    {run : NodeRun} {exit : ExitMetadata} {output : Json} {execution : NodeExecution}
    (hentry : workflow.entries.lookup id = none) (hexit : workflow.exits.lookup id = some exit)
    (h : nodeEnd workflow context id run = .ok (.returned output execution)) :
    ∃ value, output = exitRecord exit.exitName value := by
  cases run with
  | authored ending =>
      simp only [nodeEnd, bind_ok, require_ok, hexit] at h
      obtain ⟨_, ⟨-, hnone⟩, -⟩ := h
      cases hnone
  | entered callbacks =>
      simp only [nodeEnd, hentry, bind_ok, orThrow_ok] at h
      obtain ⟨_, hnone, -⟩ := h
      cases hnone
  | left validate =>
      simp only [nodeEnd, hexit, bind_ok, orThrow_ok, pure_ok] at h
      obtain ⟨_, heq, h⟩ := h
      cases heq
      cases hrun : runExit workflow context exit validate with
      | error message => rw [hrun] at h; cases h
      | ok value =>
          rw [hrun] at h
          cases h
          simp only [runExit, bind_ok] at hrun
          obtain ⟨childContext, -, hrun⟩ := hrun
          cases validate <;>
          · simp only [bind_ok, pure_ok] at hrun
            obtain ⟨_, -, rfl⟩ := hrun
            exact ⟨_, rfl⟩
  | interrupted outcome notOk error => cases h

theorem EngineInv.finish {workflow : AuthoredWorkflow} (hof : Composed workflow compiled)
    (hinv : EngineInv dateParse compiled e) {run : NodeRun} {finishedAt : String}
    (h : finishNode dateParse compiled e run finishedAt = .ok e') :
    EngineInv dateParse compiled e' := by
  obtain ⟨a, hcurrent, hending, hstate, hnext⟩ := finishNode_ok h
  have hnode := (hinv.inFlight _ hcurrent).1
  have hid := attempt_nodeId dateParse a
  have hsteps : e'.state.steps = e.state.steps ++ [stepOfAttempt (a.attempt dateParse)] := by
    rw [hstate]
    rfl
  have hids : e'.state.steps.map StepRecord.nodeId =
      e.state.steps.map StepRecord.nodeId ++ [a.nodeId] := by
    rw [hsteps, List.map_append, List.map_singleton]
    exact congrArg _ (congrArg (fun id => [id]) hid)
  have hbefore : e.path = e.state.steps.map StepRecord.nodeId ++ [a.nodeId] := by
    rw [Execution.path, hnode]
    rfl
  have hafter : e'.path = e.path ++ e'.node?.toList := by
    rw [Execution.path, hids, hbefore]
  constructor
  · rw [hafter, hbefore]
    refine path_append (hbefore ▸ hinv.walk) fun target htarget => ?_
    have hroute := Execution.node?_some.1 htarget
    rw [hnext] at hroute
    rw [← hid]
    exact continueAfter_node hroute
  · intro id hmem
    refine hinv.starts id ?_
    rw [hafter, hbefore] at hmem
    rw [hbefore]
    cases hfirst : e.state.steps.map StepRecord.nodeId with
    | nil => rw [hfirst] at hmem; exact hmem
    | cons first rest => rw [hfirst] at hmem; exact hmem
  · rw [hsteps, List.forall_mem_append]
    exact ⟨hinv.outputs, List.forall_mem_singleton.2 ⟨_, rfl⟩⟩
  · rw [hsteps, List.forall_mem_append]
    refine ⟨hinv.exits, List.forall_mem_singleton.2 ?_⟩
    intro exit hexit hok
    have hexit : compiled.exits.lookup a.nodeId = some exit := hid ▸ hexit
    have houtput := attempt_output_of_ok a hok
    rw [houtput]
    obtain ⟨_, nodeId, node, _, _, _, ending, _⟩ := a
    cases ending with
    | returned output execution =>
        obtain ⟨value, rfl⟩ := nodeEnd_exit (hof.exit_notEntry hexit) hexit hending
        exact ⟨value, rfl⟩
    | threw outcome notOk error promptText action => exact absurd hok notOk
  · rw [hstate, ← hof.projectStep_attempt, hinv.projection]
    show _ = (e.state.steps ++ [stepOfAttempt (a.attempt dateParse)]).foldl _ _
    rw [List.foldl_append]
    rfl
  · intro id hcleared
    rw [hstate] at hcleared
    cases hcleared

theorem resumePointFor_node {workflow : CompiledWorkflow} {state : RunState NodeResult}
    {id : String} (h : resumePointFor workflow state = .ok (some (.node id))) :
    state.currentNode = some id ∨ state.currentNode = none ∧
      ((state.steps = [] ∧ id = workflow.startAt) ∨ ∃ last, state.steps.getLast? = some last ∧
        (state.results.lookup last.nodeId = none ∨
          Worklist.Next (graphSuccessors workflow.edges) last.nodeId id)) := by
  unfold resumePointFor at h
  split at h
  · next nodeId hcurrent =>
      simp only [bind_ok, require_ok, pure_ok] at h
      obtain ⟨_, -, heq⟩ := h
      cases heq
      exact .inl hcurrent
  · next hcurrent =>
      refine .inr ⟨hcurrent, ?_⟩
      split at h
      · next hlast =>
          cases h
          exact .inl ⟨List.getLast?_eq_none_iff.1 hlast, rfl⟩
      · next last hlast =>
          refine .inr ⟨last, hlast, ?_⟩
          split at h
          · next hresult => exact .inl hresult
          · split at h
            · exact .inr (resolveNext_node h)
            · exact .inr (failureRoute_node h)

theorem normalize_exitRecord (exitName : String) (output : Json) :
    normalizeJson (exitRecord exitName output) = exitRecord exitName (normalizeJson output) := by
  rfl

/-- The latest step has left its result under its own node. -/
theorem Composed.last_result {workflow : AuthoredWorkflow} (hof : Composed workflow compiled)
    {steps : List StepRecord} {last : StepRecord} (hlast : steps.getLast? = some last) :
    (buildProjection dateParse (createDefinitionSnapshot compiled) steps).results.lookup
      last.nodeId ≠ none := by
  obtain ⟨earlier, rfl⟩ := List.getLast?_eq_some_iff.1 hlast
  rw [hof.lookup_results, Latest.latest_append, Latest.latest_singleton, writtenResult]
  split
  · exact Option.some_ne_none _
  · rw [if_pos rfl]
    exact Option.some_ne_none _

theorem EngineInv.resume {workflow : AuthoredWorkflow} (hof : Composed workflow compiled)
    (hinv : EngineInv dateParse compiled e) {entries : StepRecord → AttemptEntries}
    {keepsAttempt : Bool}
    (h : resumeRun sha256 dateParse toISOString compiled e entries keepsAttempt = .ok e') :
    EngineInv dateParse compiled e' := by
  obtain ⟨hread, hprojection, hcurrent, hnext⟩ := resumeRun_ok h
  have hids : e'.state.steps.map StepRecord.nodeId = e.state.steps.map StepRecord.nodeId := by
    have hsame := (hread.imp fun _ _ h => h.nodeId).flip
    rw [← List.forall₂_eq_eq_eq, List.forall₂_map_left_iff, List.forall₂_map_right_iff]
    exact hsame.imp fun _ _ h => h
  have hstepOf : ∀ read ∈ e'.state.steps, ∃ step ∈ e.state.steps, ReadBack step read := by
    intro read hmem
    obtain ⟨i, hi, rfl⟩ := List.getElem_of_mem hmem
    have hlength := hread.length_eq
    exact ⟨_, List.getElem_mem (hlength ▸ hi), hread.get (hlength ▸ hi) hi⟩
  -- Whoever takes the run over stands where it stood, or behind its latest step.
  have hroute : ∀ id, e'.node? = some id → e.node? = some id ∨
      (e'.state.steps = [] ∧ id = compiled.startAt) ∨ ∃ last,
        e'.state.steps.getLast? = some last ∧
          Worklist.Next (graphSuccessors compiled.edges) last.nodeId id := by
    intro id hid
    have hpoint := Execution.node?_some.1 hid
    rw [hnext] at hpoint
    rcases resumePointFor_node hpoint with hflight | ⟨-, hempty | ⟨last, hlast, hresult | halong⟩⟩
    · exact .inl (hinv.inFlight id hflight).1
    · exact .inr (.inl hempty)
    · have hlookup : e'.state.projection.results.lookup last.nodeId = none := hresult
      rw [hprojection] at hlookup
      exact absurd hlookup (hof.last_result hlast)
    · exact .inr (.inr ⟨last, hlast, halong⟩)
  have hpath : e'.path = e.state.steps.map StepRecord.nodeId ++ e'.node?.toList := by
    rw [Execution.path, hids]
  constructor
  · rw [hpath]
    have hrecorded := (List.isChain_append.1 hinv.walk).1
    cases hnode : e'.node? with
    | none =>
        rw [Option.toList_none, List.append_nil]
        exact hrecorded
    | some id =>
        rcases hroute id hnode with hsame | ⟨hempty, -⟩ | ⟨last, hlast, halong⟩
        · have hwalk := hinv.walk
          rw [Execution.path, hsame] at hwalk
          exact hwalk
        · rw [← hids, hempty]
          exact List.isChain_singleton id
        · obtain ⟨earlier, hsplit⟩ := List.getLast?_eq_some_iff.1 hlast
          rw [← hids, hsplit, List.map_append, List.map_singleton] at hrecorded ⊢
          refine path_append hrecorded fun target htarget => ?_
          cases htarget
          exact halong
  · intro id hmem
    rw [hpath] at hmem
    cases hfirst : e.state.steps.map StepRecord.nodeId with
    | cons first rest =>
        refine hinv.starts id ?_
        rw [hfirst] at hmem
        rw [Execution.path, hfirst]
        exact hmem
    | nil =>
        rw [hfirst] at hmem
        have hnode : e'.node? = some id := by
          cases hnode : e'.node? with
          | none => rw [hnode] at hmem; cases hmem
          | some _ => rw [hnode] at hmem; exact hmem
        rcases hroute id hnode with hsame | ⟨-, hstart⟩ | ⟨last, hlast, -⟩
        · refine hinv.starts id ?_
          rw [Execution.path, hfirst, hsame]
          rfl
        · exact hstart
        · have hnil : e'.state.steps = [] := List.map_eq_nil_iff.1 (hids.trans hfirst)
          rw [hnil] at hlast
          cases hlast
  · intro read hmem
    obtain ⟨step, hstep, hback⟩ := hstepOf read hmem
    obtain ⟨output, houtput⟩ := hinv.outputs step hstep
    exact ⟨_, hback.output output houtput⟩
  · intro read hmem exit hexit hok
    obtain ⟨step, hstep, hback⟩ := hstepOf read hmem
    rw [hback.nodeId] at hexit
    obtain ⟨output, houtput⟩ := hinv.exits step hstep exit hexit (hback.outcome.symm.trans hok)
    exact ⟨_, (hback.output _ houtput).trans (congrArg some (normalize_exitRecord _ output))⟩
  · exact hprojection
  · intro id hid
    have hbefore := hcurrent id hid
    have hdeclared := (hinv.inFlight id hbefore).2
    refine ⟨Execution.node?_some.2 ?_, hdeclared⟩
    rw [hnext, resumePointFor, hbefore]
    simp only [bind_ok, require_ok, pure_ok]
    exact ⟨.unit, hdeclared, trivial⟩

variable (sha256 toISOString) in
/-- Every run keeps the invariant. -/
theorem engineInv_run {workflow : AuthoredWorkflow} (hof : Composed workflow compiled)
    (hinv : EngineInv dateParse compiled e) (actions : List EngineAction) :
    EngineInv dateParse compiled (e.run sha256 dateParse toISOString compiled actions) := by
  refine Trace.served_invariant ?_ hinv actions
  intro s action s' hs hstep
  cases action with
  | start attemptId startedAt settings => exact hs.start hstep
  | finish run finishedAt => exact hs.finish hof hstep
  | resume entries keepsAttempt => exact hs.resume hof hstep

end

end PiWorkflows
