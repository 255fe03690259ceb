import PiWorkflows.Proofs.EngineRuns
import PiWorkflows.Proofs.MountRegions

/-!
# A child sees its own invocation and nothing else

The context of a mounted definition is cut out of the whole run: the steps from
the latest entry on, and of the run-wide outputs and results the keys that have
been written since. What an earlier invocation left under a key stays in those
maps, so the cut is right only if every key that is shown has been written again.
For a node of the child that is plain. For a mount of the child it is not: an exit
that fails writes nothing, and it is the walk of the graph that says that the mount
must have been entered since the child was (`Region.entered_between`), which
does write.

`invocation` is all that a context may depend on, and `localContext_confined`
says that it does.
-/

namespace PiWorkflows

open Fallible

/-! ## Indices -/

section

variable {steps before after : List StepRecord} {entry : StepRecord} {id : String}

theorem lt_latestStepBelow {i : Int} (hi : -1 ≤ i) (n : Nat) :
    i < latestStepBelow steps id n ↔
      ∃ j < n, i < j ∧ steps[j]?.map StepRecord.nodeId = some id := by
  induction n with
  | zero =>
      rw [latestStepBelow]
      exact iff_of_false (by omega) fun ⟨_, hj, _⟩ => absurd hj (Nat.not_lt_zero _)
  | succ n ih =>
      rw [latestStepBelow]
      split
      · next hid =>
          refine ⟨fun hlt => ⟨n, Nat.lt_succ_self n, hlt, hid⟩, ?_⟩
          rintro ⟨j, hj, hij, -⟩
          omega
      · next hid =>
          rw [ih]
          constructor
          · rintro ⟨j, hj, hij, hat⟩
            exact ⟨j, Nat.lt_succ_of_lt hj, hij, hat⟩
          · rintro ⟨j, hj, hij, hat⟩
            rcases Nat.lt_succ_iff_lt_or_eq.1 hj with hlt | rfl
            · exact ⟨j, hlt, hij, hat⟩
            · exact absurd hat hid

/-- A node has a step behind an index. -/
theorem lt_latestStepIndex {i : Int} (hi : -1 ≤ i) :
    i < latestStepIndex steps id ↔ ∃ step ∈ steps.drop (i + 1).toNat, step.nodeId = id := by
  rw [latestStepIndex, lt_latestStepBelow hi]
  constructor
  · rintro ⟨j, hj, hij, hat⟩
    rw [List.getElem?_eq_getElem hj, Option.map_some] at hat
    refine ⟨steps[j], ?_, Option.some.inj hat⟩
    rw [List.mem_drop_iff_getElem]
    refine ⟨j - (i + 1).toNat, by omega, ?_⟩
    congr 1
    omega
  · rintro ⟨step, hmem, rfl⟩
    obtain ⟨k, hk, rfl⟩ := List.mem_drop_iff_getElem.1 hmem
    refine ⟨(i + 1).toNat + k, by omega, by omega, ?_⟩
    rw [List.getElem?_eq_getElem (by omega)]
    rfl

/-- The latest step of a node, and the steps behind it. -/
theorem latestStepIndex_split (h : 0 ≤ latestStepIndex steps id) :
    ∃ before entry after, steps = before ++ entry :: after ∧ entry.nodeId = id ∧
      latestStepIndex steps id = before.length ∧ ∀ step ∈ after, step.nodeId ≠ id := by
  obtain ⟨n, hn⟩ := Int.eq_ofNat_of_zero_le h
  have hlast : (n : Int) - 1 < latestStepIndex steps id := by omega
  obtain ⟨step, hmem, hid⟩ := (lt_latestStepIndex (by omega)).1 hlast
  have hnone : ∀ step ∈ steps.drop (n + 1), step.nodeId ≠ id := by
    intro step hstep heq
    have hlt := (lt_latestStepIndex (i := n) (by omega)).2 ⟨step, by simpa using hstep, heq⟩
    omega
  have hdrop : ((n : Int) - 1 + 1).toNat = n := by omega
  rw [hdrop] at hmem
  cases hsplit : steps.drop n with
  | nil => rw [hsplit] at hmem; cases hmem
  | cons first rest =>
      have hrest : steps.drop (n + 1) = rest := by
        rw [← List.drop_drop, hsplit]
        rfl
      rw [hrest] at hnone
      have hfirst : first.nodeId = id := by
        rw [hsplit] at hmem
        rcases List.mem_cons.1 hmem with rfl | hlater
        · exact hid
        · exact absurd hid (hnone step hlater)
      have hlength : n ≤ steps.length := by
        by_contra hlong
        rw [List.drop_eq_nil_of_le (by omega)] at hsplit
        cases hsplit
      refine ⟨steps.take n, first, rest, ?_, hfirst, ?_, hnone⟩
      · rw [← hsplit, List.take_append_drop]
      · rw [hn, List.length_take, Nat.min_eq_left hlength]

theorem lt_foldl_max {i a : Int} (l : List Int) :
    i < l.foldl max a ↔ i < a ∨ ∃ x ∈ l, i < x := by
  induction l generalizing a with
  | nil => simp
  | cons x rest ih =>
      rw [List.foldl_cons, ih, List.exists_mem_cons_iff, ← or_assoc]
      exact or_congr_left (by omega)

end

/-! ## What a context may depend on -/

/-- A step of a node of the scope, or of an entry or an exit of what it mounts. -/
def isLocalStep (workflow : CompiledWorkflow) (scope : ScopeMetadata) (step : StepRecord) : Bool :=
  decide (step.nodeId ∈ scope.authoredNodes.map Prod.snd) ||
    decide (step.nodeId ∈ scope.childMounts.map Prod.snd) ||
    (workflow.exits.lookup step.nodeId).any fun exit =>
      decide (exit.mountPath ∈ scope.childMounts.map Prod.snd)

/-- The mapped input of the latest invocation of a mounted definition, and its own
steps since. -/
def invocation (workflow : CompiledWorkflow) (path : String) (steps : List StepRecord) :
    Option (Json × List StepRecord) :=
  match workflow.scopes.lookup path with
  | none => none
  | some scope =>
      let entryIndex := latestStepIndex steps path
      if entryIndex < 0 then none
      else
        some (entryInput steps entryIndex,
          (steps.drop (entryIndex + 1).toNat).filter (isLocalStep workflow scope))

/-- What a callback observes: `input`, `outputs`, `results` and `steps`. -/
structure Observed where
  input : Json
  outputs : List (String × Option Json)
  results : List (String × NodeResult)
  steps : List StepRecord

def NodeContext.observed (context : NodeContext) : Observed :=
  ⟨context.input, context.state.outputs, context.state.results, context.state.steps⟩

section

variable {dateParse : String → Option Int} {workflow : AuthoredWorkflow}
  {compiled : ExecutableWorkflow} {e : Execution} {path : String} {scope : ScopeMetadata}

/-- The names that are shown for some steps. -/
def shownNames (workflow : CompiledWorkflow) (scope : ScopeMetadata) (steps : List StepRecord) :
    List (String × String) :=
  (scope.authoredNodes.filter fun node => decide (∃ step ∈ steps, step.nodeId = node.2)) ++
    scope.childMounts.filter fun mount => decide (∃ step ∈ steps,
      (workflow.exits.lookup step.nodeId).map ExitMetadata.mountPath = some mount.2)

theorem Composed.lt_latestExitIndex (hof : Composed workflow compiled) {steps : List StepRecord}
    {i : Int} (hi : -1 ≤ i) (mountPath : String) :
    i < latestExitIndex compiled.exits steps mountPath ↔ ∃ step ∈ steps.drop (i + 1).toNat,
      (compiled.exits.lookup step.nodeId).map ExitMetadata.mountPath = some mountPath := by
  rw [latestExitIndex, lt_foldl_max]
  constructor
  · rintro (hlow | ⟨_, hmem, hlt⟩)
    · omega
    · obtain ⟨exit, hexit, rfl⟩ := List.mem_map.1 hmem
      rw [List.mem_filter, decide_eq_true_eq] at hexit
      obtain ⟨⟨id, _⟩, hrecord, rfl⟩ := List.mem_map.1 hexit.1
      rw [hof.records.2.2] at hrecord
      obtain ⟨m, hm, hrecord⟩ := List.mem_flatMap.1 hrecord
      obtain ⟨declared, hdeclared, heq⟩ := List.mem_map.1 hrecord
      obtain ⟨step, hstep, hid⟩ := (lt_latestStepIndex hi).1 hlt
      refine ⟨step, hstep, ?_⟩
      have hlookup := hof.exit_iff.2 ⟨m, hm, declared, hdeclared, heq.symm⟩
      obtain ⟨rfl, rfl⟩ := Prod.mk.inj heq
      rw [hid]
      show Option.map _ (compiled.exits.lookup (exitNodeId m.path declared.1)) = _
      rw [hlookup, Option.map_some, hexit.2]
  · rintro ⟨step, hstep, hmount⟩
    obtain ⟨exit, hlookup, rfl⟩ := Option.map_eq_some_iff.1 hmount
    refine .inr ⟨_, List.mem_map_of_mem (List.mem_filter.2 ⟨?_, decide_eq_true rfl⟩), ?_⟩
    · exact List.mem_map_of_mem (Assoc.mem_of_lookup hlookup)
    · obtain ⟨m, hm, declared, hdeclared, heq⟩ := hof.exit_iff.1 hlookup
      refine (lt_latestStepIndex hi).2 ⟨step, hstep, ?_⟩
      obtain ⟨hid, rfl⟩ := Prod.mk.inj heq
      exact hid

theorem Composed.exposedNames_eq (hof : Composed workflow compiled) {steps : List StepRecord}
    {i : Int} (hi : -1 ≤ i) :
    exposedNames compiled.exits scope steps i =
      shownNames compiled.toCompiledWorkflow scope (steps.drop (i + 1).toNat) := by
  rw [exposedNames, shownNames]
  congr 1
  · refine List.filter_congr fun node _ => decide_eq_decide.2 (lt_latestStepIndex hi)
  · refine List.filter_congr fun mount _ => decide_eq_decide.2 (hof.lt_latestExitIndex hi mount.2)

theorem isLocalStep_node {step : StepRecord} (h : step.nodeId ∈ scope.authoredNodes.map Prod.snd) :
    isLocalStep compiled.toCompiledWorkflow scope step = true := by
  rw [isLocalStep, decide_eq_true h, Bool.true_or, Bool.true_or]

theorem isLocalStep_mount {step : StepRecord} (h : step.nodeId ∈ scope.childMounts.map Prod.snd) :
    isLocalStep compiled.toCompiledWorkflow scope step = true := by
  rw [isLocalStep, decide_eq_true h, Bool.or_true, Bool.true_or]

theorem isLocalStep_exit {step : StepRecord} {mountPath : String}
    (hexit : (compiled.exits.lookup step.nodeId).map ExitMetadata.mountPath = some mountPath)
    (hmount : mountPath ∈ scope.childMounts.map Prod.snd) :
    isLocalStep compiled.toCompiledWorkflow scope step = true := by
  obtain ⟨exit, hlookup, rfl⟩ := Option.map_eq_some_iff.1 hexit
  rw [isLocalStep, hlookup, Option.any_some, decide_eq_true hmount, Bool.or_true]

/-- Only local steps decide which names are shown. -/
theorem shownNames_filter (steps : List StepRecord) :
    shownNames compiled.toCompiledWorkflow scope
        (steps.filter (isLocalStep compiled.toCompiledWorkflow scope)) =
      shownNames compiled.toCompiledWorkflow scope steps := by
  rw [shownNames, shownNames]
  congr 1
  · refine List.filter_congr fun node hnode => decide_eq_decide.2 ⟨?_, ?_⟩
    · rintro ⟨step, hstep, hid⟩
      exact ⟨step, (List.mem_filter.1 hstep).1, hid⟩
    · rintro ⟨step, hstep, hid⟩
      have hlocal : isLocalStep compiled.toCompiledWorkflow scope step = true := by
        refine isLocalStep_node ?_
        rw [hid]
        exact List.mem_map_of_mem hnode
      exact ⟨step, List.mem_filter.2 ⟨hstep, hlocal⟩, hid⟩
  · refine List.filter_congr fun mount hmount => decide_eq_decide.2 ⟨?_, ?_⟩
    · rintro ⟨step, hstep, hexit⟩
      exact ⟨step, (List.mem_filter.1 hstep).1, hexit⟩
    · rintro ⟨step, hstep, hexit⟩
      have hlocal := isLocalStep_exit hexit (List.mem_map_of_mem hmount)
      exact ⟨step, List.mem_filter.2 ⟨hstep, hlocal⟩, hexit⟩

/-- The mount of a scope as a mounting of the tree. -/
theorem Composed.childMount (hof : Composed workflow compiled)
    (hscope : compiled.scopes.lookup path = some scope) {mountPath : String}
    (h : mountPath ∈ scope.childMounts.map Prod.snd) :
    ∃ m ∈ workflow.mountings "", m.parentPath = path ∧ m.path = mountPath := by
  obtain ⟨current, hcurrent, rfl⟩ := hof.scope_iff.1 hscope
  obtain ⟨mount, hmount, rfl⟩ := List.mem_map.1 h
  obtain ⟨name, hname, rfl⟩ := List.mem_map.1 hmount
  rw [hof.spec.resolved _ hcurrent] at hname
  obtain ⟨⟨name, child⟩, hmem, rfl⟩ := List.mem_map.1 hname
  obtain ⟨m, hm, hparent, hsame, -⟩ := hof.mounting_of hcurrent hmem
  exact ⟨m, hm, hparent, by rw [Mounting.path, hparent, hsame]⟩

/-- An exit that leads back to a scope ends one of its mounts. -/
theorem Composed.exit_childMount (hof : Composed workflow compiled)
    (hscope : compiled.scopes.lookup path = some scope) {id : String} {exit : ExitMetadata}
    (hexit : compiled.exits.lookup id = some exit) (hparent : exit.parentPath = path) :
    exit.mountPath ∈ scope.childMounts.map Prod.snd := by
  obtain ⟨m, hm, declared, -, heq⟩ := hof.exit_iff.1 hexit
  obtain ⟨-, rfl⟩ := Prod.mk.inj heq
  obtain ⟨parent, hmem, hmount⟩ := (hof.mounting hm).parent
  obtain ⟨current, hcurrent, rfl⟩ := hof.scope_iff.1 hscope
  have hparent : m.parentPath = path := hparent
  obtain rfl := (Prod.mk.inj (scope_unique hof.shape hcurrent hmem hparent.symm)).2
  rw [scopeMetadata, List.map_map, ← hparent]
  exact List.mem_map_of_mem (mem_names_of_mounts hmount)

/-- A key that is shown has been written since the scope was entered. -/
theorem EngineInv.written (hof : Composed workflow compiled) (hinv : EngineInv dateParse compiled e)
    (hscope : compiled.scopes.lookup path = some scope) {before after : List StepRecord}
    {entry : StepRecord} (hsteps : e.state.steps = before ++ entry :: after)
    (hentry : entry.nodeId = path) {names : String × String}
    (hnames : names ∈ shownNames compiled.toCompiledWorkflow scope after) :
    ∃ step ∈ after, step.Writes compiled.toCompiledWorkflow names.2 := by
  rw [shownNames, List.mem_append, List.mem_filter, List.mem_filter, decide_eq_true_eq,
    decide_eq_true_eq] at hnames
  rcases hnames with ⟨-, step, hstep, hid⟩ | ⟨hmount, step, hstep, hexit⟩
  · exact ⟨step, hstep, .inl hid⟩
  · by_cases hok : step.outcome = .ok
    · refine ⟨step, hstep, .inr ?_⟩
      rw [StepRecord.leaves, if_pos hok, hexit]
    · -- The exit has failed, but to stand on it the run has entered the mount.
      obtain ⟨m, hm, hparent, hpath⟩ := hof.childMount hscope (List.mem_map_of_mem hmount)
      obtain ⟨exit, hlookup, hof'⟩ := Option.map_eq_some_iff.1 hexit
      obtain ⟨m', hm', declared, hdeclared, heq⟩ := hof.exit_iff.1 hlookup
      obtain ⟨hid, rfl⟩ := Prod.mk.inj heq
      have hsame : m'.path = m.path := hof'.trans hpath.symm
      obtain ⟨earlier, later, rfl⟩ := List.append_of_mem hstep
      have hwalk := (List.isChain_append.1 hinv.walk).1
      rw [hsteps, List.map_append, List.map_cons, List.map_append, List.map_cons] at hwalk
      have hbetween : (entry.nodeId :: earlier.map StepRecord.nodeId ++ [step.nodeId]).IsChain
          (Worklist.Next (graphSuccessors compiled.edges)) := by
        have hright := (List.isChain_split.1 hwalk).2
        rw [← List.cons_append] at hright
        exact (List.isChain_split.1 hright).1
      have houtside : entry.nodeId ∉ (hof.region hm).inside := by
        intro hinside
        have hlength := hinside.length_le
        rw [hentry, Mounting.path, hparent,
          pathSegments_qualify path (isNodeId_of_authored (hof.mounting hm).name)] at hlength
        rw [List.length_append, List.length_singleton] at hlength
        omega
      have hinside : step.nodeId ∈ (hof.region hm).inside := by
        rw [hid, hsame]
        exact (Composed.inside_below (isNodeId_exit (isNodeId_of_authored
          (hof.exitName hm' hdeclared))) (List.prefix_refl _)).1
      have hentered := Region.entered_between hbetween houtside hinside
      rcases List.mem_append.1 hentered with hmem | hlast
      · obtain ⟨other, hother, hnode⟩ := List.mem_map.1 hmem
        exact ⟨other, List.mem_append_left _ hother, .inl (hnode.trans hpath)⟩
      · rw [List.mem_singleton, hid] at hlast
        exact absurd hlast (qualify_ne_exitNodeId (hof.mounting hm).name
          (hof.exitName hm' hdeclared))

/-- What is read off the steps of a run under a key that has been written since
the scope was entered is read off its own steps since. -/
theorem latest_invocation {α : Type} {f : StepRecord → Option α} {before after : List StepRecord}
    {entry : StepRecord} (hsaid : ∃ step ∈ after, f step ≠ none)
    (hlocal : ∀ step ∈ after, f step ≠ none →
      isLocalStep compiled.toCompiledWorkflow scope step = true) :
    Latest.latest f (before ++ entry :: after) =
      Latest.latest f (after.filter (isLocalStep compiled.toCompiledWorkflow scope)) := by
  rw [List.append_cons, Latest.latest_append_of_said hsaid, Latest.latest_filter hlocal]

/-- The steps that write a key which is shown are local. -/
theorem Composed.writer_local (hof : Composed workflow compiled)
    (hscope : compiled.scopes.lookup path = some scope) {steps : List StepRecord}
    {names : String × String} (hnames : names ∈ shownNames compiled.toCompiledWorkflow scope steps)
    {step : StepRecord} (hwrites : step.Writes compiled.toCompiledWorkflow names.2) :
    isLocalStep compiled.toCompiledWorkflow scope step = true := by
  rw [shownNames, List.mem_append, List.mem_filter, List.mem_filter] at hnames
  have hexit : step.leaves compiled.toCompiledWorkflow = some names.2 →
      (compiled.exits.lookup step.nodeId).map ExitMetadata.mountPath = some names.2 := by
    intro hleaves
    rw [StepRecord.leaves] at hleaves
    split at hleaves
    · exact hleaves
    · cases hleaves
  rcases hnames with ⟨hnode, -⟩ | ⟨hmount, -⟩
  · rcases hwrites with hid | hleaves
    · exact isLocalStep_node (by rw [hid]; exact List.mem_map_of_mem hnode)
    · -- No exit leaves a node.
      obtain ⟨exit, hlookup, hpath⟩ := Option.map_eq_some_iff.1 (hexit hleaves)
      obtain ⟨m, hm, declared, hdeclared, heq⟩ := hof.exit_iff.1 hlookup
      obtain ⟨-, rfl⟩ := Prod.mk.inj heq
      obtain ⟨current, hcurrent, rfl⟩ := hof.scope_iff.1 hscope
      obtain ⟨node, hmem, rfl⟩ := List.mem_map.1 hnode
      exact absurd hpath.symm (hof.node_ne_mount hcurrent (List.mem_map_of_mem hmem) hm)
  · rcases hwrites with hid | hleaves
    · exact isLocalStep_mount (by rw [hid]; exact List.mem_map_of_mem hmount)
    · exact isLocalStep_exit (hexit hleaves) (List.mem_map_of_mem hmount)

/-- What a scope shows of its own steps. -/
def invocationContext (dateParse : String → Option Int) (workflow : CompiledWorkflow)
    (scope : ScopeMetadata) (path : String) (input : Json) (steps : List StepRecord) : Observed :=
  let names := shownNames workflow scope steps
  let written (key : String) := (Latest.latest (writtenOutput workflow key) steps).join
  let ended (key : String) := (Latest.latest (writtenResult dateParse workflow key) steps).join
  { input
    outputs := names.foldl (fun exposed names =>
      match written names.2 with
      | some value => assignMember names.1 value exposed
      | none => exposed) []
    results := names.foldl (fun exposed names =>
      match ended names.2 with
      | some value => assignMember names.1 value exposed
      | none => exposed) []
    steps := steps.flatMap (localStep workflow.exits scope path) }

theorem localStep_filter (hof : Composed workflow compiled)
    (hscope : compiled.scopes.lookup path = some scope) (steps : List StepRecord) :
    (steps.filter (isLocalStep compiled.toCompiledWorkflow scope)).flatMap
        (localStep compiled.exits scope path) =
      steps.flatMap (localStep compiled.exits scope path) := by
  induction steps with
  | nil => rfl
  | cons step rest ih =>
      rw [List.flatMap_cons, ← ih, List.filter_cons]
      split
      · rfl
      · next hnot =>
          have hnone : localStep compiled.exits scope path step = [] := by
            rw [localStep, if_neg fun hnode => hnot (isLocalStep_node hnode)]
            split
            · next exit hexit =>
                have hleft : (compiled.exits.lookup step.nodeId).map ExitMetadata.mountPath =
                    some exit.mountPath := by rw [hexit]; rfl
                refine if_neg fun hparent => hnot (isLocalStep_exit hleft ?_)
                · exact hof.exit_childMount hscope hexit hparent
            · rfl
          rw [hnone, List.nil_append]

/-- The values under a key that is shown. -/
theorem EngineInv.lookup_shown (hof : Composed workflow compiled)
    (hinv : EngineInv dateParse compiled e) (hscope : compiled.scopes.lookup path = some scope)
    {before after : List StepRecord} {entry : StepRecord}
    (hsteps : e.state.steps = before ++ entry :: after) (hentry : entry.nodeId = path)
    {names : String × String} (hnames : names ∈ shownNames compiled.toCompiledWorkflow scope after) :
    e.state.outputs.lookup names.2 = (Latest.latest (writtenOutput compiled.toCompiledWorkflow
        names.2) (after.filter (isLocalStep compiled.toCompiledWorkflow scope))).join ∧
      e.state.results.lookup names.2 = (Latest.latest (writtenResult dateParse
        compiled.toCompiledWorkflow names.2)
          (after.filter (isLocalStep compiled.toCompiledWorkflow scope))).join := by
  obtain ⟨step, hstep, hwritten⟩ := hinv.written hof hscope hsteps hentry hnames
  have houtputs : e.state.outputs = (buildProjection dateParse (createDefinitionSnapshot compiled)
      e.state.steps).outputs := congrArg Projection.outputs hinv.projection
  have hresults : e.state.results = (buildProjection dateParse (createDefinitionSnapshot compiled)
      e.state.steps).results := congrArg Projection.results hinv.projection
  constructor
  · rw [houtputs, hof.lookup_outputs, hsteps]
    refine congrArg Option.join (latest_invocation ⟨step, hstep, ?_⟩ fun other _ hother => ?_)
    · exact (writtenOutput_ne_none _).2 hwritten
    · exact hof.writer_local hscope hnames ((writtenOutput_ne_none _).1 hother)
  · rw [hresults, hof.lookup_results, hsteps]
    refine congrArg Option.join (latest_invocation ⟨step, hstep, ?_⟩ fun other _ hother => ?_)
    · exact (writtenResult_ne_none dateParse _).2 hwritten
    · exact hof.writer_local hscope hnames ((writtenResult_ne_none dateParse _).1 hother)

/-- The context of a scope that was entered is made of its invocation. -/
theorem EngineInv.context_eq (hof : Composed workflow compiled)
    (hinv : EngineInv dateParse compiled e) (hpath : path ≠ "")
    (hscope : compiled.scopes.lookup path = some scope) {input : Json} {steps : List StepRecord}
    (hsame : invocation compiled.toCompiledWorkflow path e.state.steps = some (input, steps)) :
    (projectWorkflowContext compiled.toCompiledWorkflow e.context path).map NodeContext.observed =
      .ok (invocationContext dateParse compiled.toCompiledWorkflow scope path input steps) := by
  rw [invocation, hscope] at hsame
  dsimp only at hsame
  split at hsame
  · cases hsame
  · next hentered =>
      have hindex : 0 ≤ latestStepIndex e.state.steps path := by omega
      have hlow : -1 ≤ latestStepIndex e.state.steps path := by omega
      obtain ⟨before, entry, after, hsteps, hentry, hat, -⟩ := latestStepIndex_split hindex
      have hafter : e.state.steps.drop (latestStepIndex e.state.steps path + 1).toNat = after := by
        have hnat : (latestStepIndex e.state.steps path + 1).toNat = before.length + 1 := by omega
        rw [hnat, hsteps, List.drop_append]
        simp
      obtain ⟨rfl, rfl⟩ := Prod.mk.inj (Option.some.inj hsame)
      rw [hafter]
      refine map_ok.2 ⟨
        { input := entryInput e.state.steps (latestStepIndex e.state.steps path)
          state := { e.state with
            outputs := (shownNames compiled.toCompiledWorkflow scope after).foldl
              (exposeMember e.state.outputs) []
            results := (shownNames compiled.toCompiledWorkflow scope after).foldl
              (exposeMember e.state.results) []
            steps := after.flatMap (localStep compiled.exits scope path)
            currentNode := e.state.currentNode.map (localNameFor scope) } }, ?_, ?_⟩
      · simp only [projectWorkflowContext, bind_ok, orThrow_ok, require_ok, pure_ok, if_neg hpath]
        refine ⟨scope, hscope, .unit, fun _ => hindex, ?_⟩
        rw [Execution.context, hof.exposedNames_eq hlow, hafter]
      · rw [NodeContext.observed, invocationContext, Observed.mk.injEq, shownNames_filter,
          localStep_filter hof hscope]
        refine ⟨rfl, ?_, ?_, rfl⟩
        · refine List.foldl_ext _ _ _ fun exposed names hnames => ?_
          rw [exposeMember, (hinv.lookup_shown hof hscope hsteps hentry hnames).1]
          dsimp only
          cases (Latest.latest (writtenOutput compiled.toCompiledWorkflow names.2) _).join <;> rfl
        · refine List.foldl_ext _ _ _ fun exposed names hnames => ?_
          rw [exposeMember, (hinv.lookup_shown hof hscope hsteps hentry hnames).2]
          dsimp only
          cases (Latest.latest (writtenResult dateParse compiled.toCompiledWorkflow names.2) _).join <;>
            rfl

/-- A scope that has no invocation shows nothing but an error. -/
theorem context_refused (hpath : path ≠ "")
    (h : invocation compiled.toCompiledWorkflow path e.state.steps = none) :
    projectWorkflowContext compiled.toCompiledWorkflow e.context path =
      match compiled.scopes.lookup path with
      | none => .error s!"Workflow scope is missing: {path}"
      | some _ => .error s!"Workflow include entry is missing: {path}" := by
  simp only [projectWorkflowContext, if_neg hpath]
  cases hscope : compiled.scopes.lookup path with
  | none => rfl
  | some scope =>
      rw [invocation, hscope] at h
      dsimp only at h
      split at h
      · next hmissing =>
          have hnot : ¬ (path ≠ "" → 0 ≤ latestStepIndex e.context.state.steps path) := by
            intro hentered
            exact absurd (hentered hpath) (Int.not_le.2 hmissing)
          rw [require, if_neg hnot]
          rfl
      · cases h

variable {sha256 : String → String} {toISOString : Int → String}

/-- Whatever else two runs did, a mounted definition whose invocations are alike in
them observes the same. -/
theorem localContext_confined (hof : Composed workflow compiled) (hpath : path ≠ "")
    (runId runId' : String) (input input' : Json) (actions actions' : List EngineAction)
    (hsame : invocation compiled.toCompiledWorkflow path
        ((Execution.fresh compiled.toCompiledWorkflow runId input).run sha256 dateParse toISOString
          compiled actions).state.steps =
      invocation compiled.toCompiledWorkflow path
        ((Execution.fresh compiled.toCompiledWorkflow runId' input').run sha256 dateParse toISOString
          compiled actions').state.steps) :
    (projectWorkflowContext compiled.toCompiledWorkflow
        ((Execution.fresh compiled.toCompiledWorkflow runId input).run sha256 dateParse toISOString
          compiled actions).context path).map NodeContext.observed =
      (projectWorkflowContext compiled.toCompiledWorkflow
        ((Execution.fresh compiled.toCompiledWorkflow runId' input').run sha256 dateParse toISOString
          compiled actions').context path).map NodeContext.observed := by
  have hinv := engineInv_run sha256 toISOString hof
    (engineInv_fresh dateParse compiled runId input) actions
  have hinv' := engineInv_run sha256 toISOString hof
    (engineInv_fresh dateParse compiled runId' input') actions'
  cases hview : invocation compiled.toCompiledWorkflow path
      ((Execution.fresh compiled.toCompiledWorkflow runId input).run sha256 dateParse toISOString
        compiled actions).state.steps with
  | none => rw [context_refused hpath hview, context_refused hpath (hsame ▸ hview)]
  | some view =>
      obtain ⟨mapped, steps⟩ := view
      cases hscope : compiled.scopes.lookup path with
      | none => rw [invocation, hscope] at hview; cases hview
      | some scope =>
          rw [hinv.context_eq hof hpath hscope hview, hinv'.context_eq hof hpath hscope (hsame ▸ hview)]

end

/-! ## Two runs with one invocation -/

theorem reviewComposed : Composed reviewWorkflow reviewCompiled where
  shape := by
    intro scope hscope
    change scope ∈ [_, _] at hscope
    simp only [List.mem_cons, List.not_mem_nil, or_false] at hscope
    rcases hscope with rfl | rfl <;> exact ⟨by decide, by decide, by decide, rfl⟩
  compiles := rfl

/-- The parent drafts something, and the child is entered with a task of its own. -/
def draftedReview (draft : String) : List EngineAction :=
  let at0 := "1970-01-01T00:00:00.000Z"
  [.start "a1" at0 none, .finish (.authored (.returned (.str draft) {})) at0,
    .start "a2" at0 none, .finish (.entered { input := some fun _ => .ok (some (.str "task")) }) at0,
    .start "a3" at0 none, .finish (.authored (.returned (.str "fine") {})) at0]

/-- The drafts differ, which the child does not see. -/
theorem draftedReview_confined :
    (projectWorkflowContext reviewCompiled.toCompiledWorkflow
        ((Execution.fresh reviewCompiled.toCompiledWorkflow "r1" .null).run id (fun _ => some 0)
          (fun _ => "") reviewCompiled (draftedReview "one")).context "check").map
        NodeContext.observed =
      (projectWorkflowContext reviewCompiled.toCompiledWorkflow
        ((Execution.fresh reviewCompiled.toCompiledWorkflow "r2" (.bool true)).run id
          (fun _ => some 0) (fun _ => "") reviewCompiled (draftedReview "two")).context "check").map
        NodeContext.observed :=
  localContext_confined reviewComposed (by decide) "r1" "r2" .null (.bool true)
    (draftedReview "one") (draftedReview "two") rfl

end PiWorkflows
