import PiWorkflows.Workflows.Projection

/-!
# What a callback sees of a run (`workflows/composition.ts`)

Every callback of a compiled workflow is handed the run as its own scope has it:
the input of the scope, the outputs and results of its nodes and of what it
mounts under their local names, and the steps since it was entered last
(`projectWorkflowContext`). The generated nodes are in this file too, since they
are the ones that read such a context and write what the next one is made of: an
entry node keeps the mapped input of an invocation, an exit node what the child
ends with. The mappings and checks of an author are functions that may throw.
-/

namespace PiWorkflows

open Fallible

/-! ## Steps -/

/-- The loop of `latestStepIndex` from an index downwards. -/
def latestStepBelow (steps : List StepRecord) (nodeId : String) : Nat → Int
  | 0 => -1
  | index + 1 =>
      if steps[index]?.map StepRecord.nodeId = some nodeId then index
      else latestStepBelow steps nodeId index

/-- `latestStepIndex`. -/
def latestStepIndex (steps : List StepRecord) (nodeId : String) : Int :=
  latestStepBelow steps nodeId steps.length

/-- `countCompletedEntries`. -/
def countCompletedEntries (steps : List StepRecord) (entryNode : String) : Nat :=
  (steps.filter fun step => step.nodeId = entryNode ∧ step.outcome = .ok).length

/-! ## The local context -/

/-- `WorkflowNodeContext`. Its `outputs` and `results` are those of the state. -/
structure NodeContext where
  input : Json
  state : RunState NodeResult

/-- `localNameFor`. -/
def localNameFor (scope : ScopeMetadata) (qualified : String) : String :=
  match scope.authoredNodes.find? fun node => node.2 = qualified with
  | some node => node.1
  | none => qualified

/-- `exposed[local] = record[key]`, if the record has the key. -/
def exposeMember {α : Type} (record : List (String × α)) (exposed : List (String × α))
    (names : String × String) : List (String × α) :=
  match record.lookup names.2 with
  | some value => assignMember names.1 value exposed
  | none => exposed

/-- The latest step at any exit of a mount. -/
def latestExitIndex (exits : List (String × ExitMetadata)) (steps : List StepRecord)
    (mountPath : String) : Int :=
  (((exits.map Prod.snd).filter fun candidate => candidate.mountPath = mountPath).map
    fun candidate => latestStepIndex steps candidate.nodeId).foldl max (-1)

/-- The local names that are shown, with the keys their values are under: the
nodes that have run and the mounts that were left since the scope was entered. -/
def exposedNames (exits : List (String × ExitMetadata)) (scope : ScopeMetadata)
    (steps : List StepRecord) (entryIndex : Int) : List (String × String) :=
  (scope.authoredNodes.filter fun node => entryIndex < latestStepIndex steps node.2) ++
    scope.childMounts.filter fun mount => entryIndex < latestExitIndex exits steps mount.2

/-- A step as the scope shows it: its own nodes and the exits of its mounts. -/
def localStep (exits : List (String × ExitMetadata)) (scope : ScopeMetadata) (scopePath : String)
    (step : StepRecord) : List StepRecord :=
  if step.nodeId ∈ scope.authoredNodes.map Prod.snd then
    [{ step with nodeId := localNameFor scope step.nodeId }]
  else
    match exits.lookup step.nodeId with
    | some exit =>
        if exit.parentPath = scopePath then [{ step with nodeId := exit.mountName }] else []
    | none => []

/-- `entry?.input ?? null` of the step that entered a scope. -/
def entryInput (steps : List StepRecord) (entryIndex : Int) : Json :=
  (((steps[entryIndex.toNat]?).bind StepRecord.output).bind fun entry =>
    entry.member? "input").getD .null

/-- `projectWorkflowContext`. -/
def projectWorkflowContext (workflow : CompiledWorkflow) (context : NodeContext)
    (scopePath : String) : Except String NodeContext := do
  let shown := if scopePath = "" then "root" else scopePath
  let scope ← orThrow s!"Workflow scope is missing: {shown}" (workflow.scopes.lookup scopePath)
  let steps := context.state.steps
  let entryIndex := if scopePath = "" then -1 else latestStepIndex steps scopePath
  require (scopePath ≠ "" → 0 ≤ entryIndex) s!"Workflow include entry is missing: {scopePath}"
  let names := exposedNames workflow.exits scope steps entryIndex
  let localSteps := (steps.drop (entryIndex + 1).toNat).flatMap
    (localStep workflow.exits scope scopePath)
  pure
    { input := if scopePath = "" then context.input else entryInput steps entryIndex
      state :=
        { context.state with
          outputs := names.foldl (exposeMember context.state.outputs) []
          results := names.foldl (exposeMember context.state.results) []
          steps := localSteps
          currentNode := context.state.currentNode.map (localNameFor scope) } }

/-! ## Entries and exits -/

/-- The functions around an include: its own mappings and the child's check of its input. -/
structure IncludeCallbacks where
  input : Option (NodeContext → Except String (Option Json)) := none
  normalizeInput : Option (Option Json → Except String (Option Json)) := none
  settings : Option (NodeContext → Except String (Option Json)) := none

/-- The record an entry node keeps. -/
def entryRecord (invocation : Nat) (input : Option Json) (settings : Option Json) : Json :=
  .obj ([("schema", .str "pi-workflows.include-entry.v1"),
    ("invocation", .num (.ofInt invocation)), ("input", input.getD .null)]
    ++ optionalMember "settings" settings)

/-- `run` of an entry node. -/
def runEntry (workflow : CompiledWorkflow) (context : NodeContext) (entry : EntryMetadata)
    (callbacks : IncludeCallbacks) : Except String Json := do
  let parentContext ← projectWorkflowContext workflow context entry.parentPath
  let mapped ←
    match callbacks.input with
    | some input => input parentContext
    | none => pure (some parentContext.input)
  let normalized ←
    match callbacks.normalizeInput with
    | some normalizeInput => normalizeInput mapped
    | none => pure mapped
  let initialSettings ←
    match callbacks.settings with
    | some settings => settings parentContext
    | none => pure none
  pure (entryRecord (countCompletedEntries context.state.steps entry.mountPath + 1) normalized
    initialSettings)

/-- The record an exit node leaves to the parent. -/
def exitRecord (exitName : String) (output : Json) : Json :=
  .obj [("exit", .str exitName), ("output", output)]

/-- `run` of an exit node. The exit leaves from a node of the child, which the
child's context has under its local name. -/
def runExit (workflow : CompiledWorkflow) (context : NodeContext) (exit : ExitMetadata)
    (validate : Option (Option Json → Except String (Option Json))) : Except String Json := do
  let childContext ← projectWorkflowContext workflow context exit.mountPath
  let source := ((workflow.scopes.lookup exit.mountPath).map fun scope =>
    localNameFor scope exit.fromNode).getD exit.fromNode
  let raw := (childContext.state.outputs.lookup source).join
  let output ←
    match validate with
    | some validate => validate raw
    | none => pure raw
  pure (exitRecord exit.exitName (output.getD .null))

/-- The scope whose context the callbacks of a node are given: an entry node maps
in the scope that mounts, an exit node reads in the scope it ends. -/
def contextScope (workflow : CompiledWorkflow) (nodeId : String) : Option String :=
  match workflow.entries.lookup nodeId, workflow.exits.lookup nodeId with
  | some entry, _ => some entry.parentPath
  | none, some exit => some exit.mountPath
  | none, none =>
      ((workflow.scopes.map Prod.snd).find? fun scope =>
        decide (nodeId ∈ scope.authoredNodes.map Prod.snd)).map ScopeMetadata.path

end PiWorkflows
