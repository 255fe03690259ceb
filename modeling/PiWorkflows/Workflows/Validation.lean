import PiWorkflows.Workflows.Composition

/-!
# Which graphs run (`workflows/schema.ts`, `workflows/graph.ts`)

A definition is checked twice. Its shape is checked when an author makes it, one
definition at a time and before anything is known about what it includes. When
it is about to run it has been compiled, and the compiled graph goes through the
same shape check again, now with the ids compilation made, and through a check
of the whole graph. What passes is an `ExecutableWorkflow`.

The shape check is about values of any type in the source. What the types here
already say is left out of it, and so are the functions of a definition.
-/

namespace PiWorkflows

open Fallible

/-! ## The shape of a definition -/

/-- The parts of a definition that its shape is about. -/
structure DefinitionShape where
  name : String
  startAt : String
  maxSteps : Option Nat
  nodeIds : List String
  includes : List String
  exits : List (String × String)
  edges : List WorkflowEdge

def AuthoredWorkflow.shape (workflow : AuthoredWorkflow) : DefinitionShape where
  name := workflow.name
  startAt := workflow.startAt
  maxSteps := workflow.maxSteps
  nodeIds := workflow.nodes.map Prod.fst
  includes := workflow.includes.names
  exits := workflow.exits
  edges := workflow.edges

/-- A compiled definition has no includes and no exits any more. -/
def CompiledWorkflow.shape (workflow : CompiledWorkflow) : DefinitionShape where
  name := workflow.name
  startAt := workflow.startAt
  maxSteps := workflow.maxSteps
  nodeIds := workflow.nodes.map Prod.fst
  includes := []
  exits := []
  edges := workflow.edges

/-- `NODE_ID_PATTERN.source`. -/
def nodeIdPattern : String := "^[A-Za-z_][A-Za-z0-9_-]*$"

/-- `RESERVED_WORKFLOW_NAMES`. -/
def reservedWorkflowNames : List String :=
  ["answer", "cancel", "change-settings", "list", "pause", "queue-follow-up", "remove-follow-up",
   "resume", "status"]

/-- `fail` unless the condition holds. -/
def requireShape (p : Prop) [Decidable p] (message : String) : Except String Unit :=
  require p s!"Invalid workflow definition: {message}"

/-- The checks of one node id. -/
def assertValidNodeId (compiled : Bool) (nodeId : String) : Except String Unit := do
  let segments := splitText '/' nodeId
  let quoted := stringify (.str nodeId)
  requireShape
    ((∀ segment ∈ segments, isNodeId segment = true ∧
        (compiled = false → isReservedName segment = false)) ∧
      (compiled = false → segments.length = 1))
    s!"node id {quoted} must match {nodeIdPattern}"
  let opening := stringify (.str (String.ofList (nodeId.toList.take 64)))
  requireShape (nodeId.utf8ByteSize ≤ nodeIdMaxBytes)
    s!"node id {opening} must be at most {nodeIdMaxBytes} bytes"
  requireShape (isInheritedName nodeId = false)
    s!"node id {quoted} shadows an Object prototype member"

/-- The checks of one include. -/
def assertValidInclude (nodeIds : List String) (mountName : String) : Except String Unit := do
  let quoted := stringify (.str mountName)
  requireShape (isAuthoredName mountName = true)
    s!"include name {quoted} must match {nodeIdPattern}"
  requireShape (mountName ∉ nodeIds) s!"include name {quoted} collides with a node id"

/-- The checks of one exit. -/
def assertValidExit (exit : String × String) : Except String Unit := do
  let (exitName, source) := exit
  let quoted := stringify (.str exitName)
  requireShape (isAuthoredName exitName = true) s!"exit name {quoted} must match {nodeIdPattern}"
  requireShape (source ≠ "") s!"exit {exitName} requires from"

/-- The openings of a path that routing understands. -/
def isSwitchPath (on : String) : Bool :=
  ["$.", "$output.", "$result."].any fun opening => opening.toList.isPrefixOf on.toList

/-- `assertValidEdgeShape`. -/
def assertValidEdgeShape (edge : WorkflowEdge) (index : Nat) : Except String Unit := do
  requireShape (edge.source ≠ "") s!"edge {index} requires a from node id"
  match edge with
  | .plain _ target => requireShape (target ≠ "") s!"edge {index} requires a to node id"
  | .switch _ on cases => do
      requireShape (on ≠ "") s!"edge {index} switch.on must be a JSON path string"
      requireShape (isSwitchPath on = true)
        s!"edge {index} switch.on must start with \"$.\", \"$output.\", or \"$result.\""
      requireShape (cases ≠ []) s!"edge {index} switch.cases must not be empty"
      cases.forM fun (caseKey, target) =>
        let quoted := stringify (.str caseKey)
        requireShape (target ≠ "") s!"edge {index} switch case {quoted} must map to a node id"

/-- `assertValidWorkflowDefinitionShape`. -/
def assertValidWorkflowDefinitionShape (definition : DefinitionShape) (compiled : Bool) :
    Except String Unit := do
  requireShape (definition.name ≠ "") "workflow requires a name"
  let quoted := stringify (.str definition.name)
  requireShape (definition.name ∉ reservedWorkflowNames)
    s!"workflow name {quoted} is reserved for /workflow subcommands"
  requireShape (definition.startAt ≠ "") "workflow requires startAt"
  requireShape (definition.maxSteps ≠ some 0) "workflow maxSteps must be a positive integer"
  requireShape (definition.nodeIds ≠ []) "workflow requires at least one node"
  definition.nodeIds.forM (assertValidNodeId compiled)
  definition.includes.forM (assertValidInclude definition.nodeIds)
  definition.exits.forM assertValidExit
  definition.edges.zipIdx.forM fun (edge, index) => assertValidEdgeShape edge index

/-! ## The compiled graph -/

/-- `assertKnownNode`. -/
def assertKnownNode (workflow : CompiledWorkflow) (description nodeId : String) :
    Except String Unit :=
  require (hasOwn workflow.nodes nodeId = true) s!"{description}: {nodeId}"

/-- The last check of an edge: where it leads. -/
def assertKnownTargets (workflow : CompiledWorkflow) : WorkflowEdge → Except String Unit
  | .plain _ target => assertKnownNode workflow "Workflow edge references unknown to-node" target
  | .switch _ _ cases =>
      cases.forM fun (_, target) =>
        assertKnownNode workflow "Workflow switch references unknown to-node" target

/-- `validateWorkflowEdge` for each edge, with the nodes whose edge was seen. -/
def validateWorkflowEdges (workflow : CompiledWorkflow) :
    List WorkflowEdge → List String → Except String Unit
  | [], _ => pure ()
  | edge :: edges, outgoingEdges => do
      assertKnownNode workflow "Workflow edge references unknown from-node" edge.source
      require (edge.source ∉ outgoingEdges)
        s!"Workflow node must not declare multiple outgoing edges: {edge.source}"
      assertKnownTargets workflow edge
      validateWorkflowEdges workflow edges (edge.source :: outgoingEdges)

/-- Where the edges of a node lead. -/
def graphSuccessors (edges : List WorkflowEdge) (nodeId : String) : List String :=
  edges.flatMap fun edge => if edge.source = nodeId then edge.targets else []

/-- The ids the walk from the start node reaches. -/
def graphReachable (workflow : CompiledWorkflow) : List String :=
  let fuel := 1 + (workflow.edges.flatMap WorkflowEdge.targets).length
  Worklist.visit (graphSuccessors workflow.edges) fuel [workflow.startAt] [workflow.startAt]

/-- `assertAllNodesReachable`. -/
def assertAllNodesReachable (workflow : CompiledWorkflow) : Except String Unit :=
  let reachable := graphReachable workflow
  let unreachable := (workflow.nodes.map Prod.fst).filter fun nodeId => decide (nodeId ∉ reachable)
  let listed := String.intercalate ", " unreachable
  require (unreachable = []) s!"Workflow has unreachable nodes: {listed}"

/-- `validateWorkflowDefinition` of a compiled definition. -/
def validateWorkflowDefinition (executable : CompiledWorkflow) : Except String Unit := do
  assertValidWorkflowDefinitionShape executable.shape true
  require (hasOwn executable.nodes executable.startAt = true)
    s!"Workflow start node is missing: {executable.startAt}"
  validateWorkflowEdges executable executable.edges []
  assertAllNodesReachable executable

/-- A compiled workflow that the engine takes. -/
structure ExecutableWorkflow extends CompiledWorkflow where
  valid : validateWorkflowDefinition toCompiledWorkflow = .ok ()

/-! ## What the checks say -/

theorem assertValidNodeId_ok {compiled : Bool} {nodeId : String} {r : Unit} :
    assertValidNodeId compiled nodeId = .ok r ↔
      ((∀ segment ∈ splitText '/' nodeId, isNodeId segment = true ∧
          (compiled = false → isReservedName segment = false)) ∧
        (compiled = false → (splitText '/' nodeId).length = 1)) ∧
      nodeId.utf8ByteSize ≤ nodeIdMaxBytes ∧ isInheritedName nodeId = false := by
  simp only [assertValidNodeId, requireShape, bind_ok, require_ok, exists_const]

/-- The shape an edge must have. -/
def WorkflowEdge.HasShape : WorkflowEdge → Prop
  | .plain source target => source ≠ "" ∧ target ≠ ""
  | .switch source on cases =>
      source ≠ "" ∧ on ≠ "" ∧ isSwitchPath on = true ∧ cases ≠ [] ∧ ∀ entry ∈ cases, entry.2 ≠ ""

theorem assertValidEdgeShape_ok {edge : WorkflowEdge} {index : Nat} {r : Unit} :
    assertValidEdgeShape edge index = .ok r ↔ edge.HasShape := by
  cases edge with
  | plain =>
      simp only [assertValidEdgeShape, requireShape, bind_ok, require_ok, exists_const]
      rfl
  | switch =>
      simp only [assertValidEdgeShape, requireShape, bind_ok, require_ok, forM_ok, exists_const]
      rfl

theorem assertValidWorkflowDefinitionShape_ok {definition : DefinitionShape} {compiled : Bool}
    {r : Unit} :
    assertValidWorkflowDefinitionShape definition compiled = .ok r ↔
      definition.name ≠ "" ∧ definition.name ∉ reservedWorkflowNames ∧
      definition.startAt ≠ "" ∧ definition.maxSteps ≠ some 0 ∧ definition.nodeIds ≠ [] ∧
      (∀ nodeId ∈ definition.nodeIds, assertValidNodeId compiled nodeId = .ok ()) ∧
      (∀ mountName ∈ definition.includes,
        assertValidInclude definition.nodeIds mountName = .ok ()) ∧
      (∀ exit ∈ definition.exits, assertValidExit exit = .ok ()) ∧
      ∀ edge ∈ definition.edges, edge.HasShape := by
  have hedges : (∀ entry ∈ definition.edges.zipIdx, entry.1.HasShape) ↔
      ∀ edge ∈ definition.edges, edge.HasShape := by
    rw [← List.forall_mem_map, List.zipIdx_map_fst]
  simp only [assertValidWorkflowDefinitionShape, requireShape, bind_ok, require_ok, forM_ok,
    exists_const, assertValidEdgeShape_ok, hedges]

theorem assertKnownTargets_ok {workflow : CompiledWorkflow} {edge : WorkflowEdge} {r : Unit} :
    assertKnownTargets workflow edge = .ok r ↔
      ∀ target ∈ edge.targets, hasOwn workflow.nodes target = true := by
  cases edge with
  | plain => simp [assertKnownTargets, assertKnownNode, WorkflowEdge.targets]
  | switch source on cases =>
      rw [assertKnownTargets, forM_ok, WorkflowEdge.targets, List.forall_mem_map]
      exact forall₂_congr fun _ _ => require_ok

/-- Edges pass if they name known nodes and no two of them leave the same one. -/
theorem validateWorkflowEdges_ok {workflow : CompiledWorkflow} {edges : List WorkflowEdge}
    {outgoing : List String} {r : Unit} :
    validateWorkflowEdges workflow edges outgoing = .ok r ↔
      (∀ edge ∈ edges, hasOwn workflow.nodes edge.source = true ∧ edge.source ∉ outgoing ∧
        ∀ target ∈ edge.targets, hasOwn workflow.nodes target = true) ∧
      (edges.map WorkflowEdge.source).Nodup := by
  induction edges generalizing outgoing with
  | nil => simp [validateWorkflowEdges]
  | cons edge rest ih =>
      simp only [validateWorkflowEdges, bind_ok, require_ok, assertKnownTargets_ok, ih, assertKnownNode]
      rw [List.map_cons, List.nodup_cons, List.forall_mem_cons]
      constructor
      · rintro ⟨_, hsource, _, hnew, _, htarget, hrest, hnodup⟩
        refine ⟨⟨⟨hsource, hnew, htarget⟩, ?_⟩, ?_, hnodup⟩
        · intro other hother
          obtain ⟨hknown, hfresh, hleads⟩ := hrest other hother
          exact ⟨hknown, fun h => hfresh (List.mem_cons_of_mem _ h), hleads⟩
        · intro hmem
          obtain ⟨other, hother, heq⟩ := List.mem_map.1 hmem
          exact (hrest other hother).2.1 (heq ▸ List.mem_cons_self)
      · rintro ⟨⟨⟨hsource, hnew, htarget⟩, hrest⟩, hnot, hnodup⟩
        refine ⟨.unit, hsource, .unit, hnew, .unit, htarget, ?_, hnodup⟩
        intro other hother
        obtain ⟨hknown, hfresh, hleads⟩ := hrest other hother
        refine ⟨hknown, ?_, hleads⟩
        intro h
        rcases List.mem_cons.1 h with heq | h
        · exact hnot (heq ▸ List.mem_map_of_mem hother)
        · exact hfresh h

/-- What can be reached from the start node. -/
def CompiledWorkflow.Reaches (workflow : CompiledWorkflow) (nodeId : String) : Prop :=
  Relation.ReflTransGen (Worklist.Next (graphSuccessors workflow.edges)) workflow.startAt nodeId

theorem mem_graphSuccessors {edges : List WorkflowEdge} {nodeId target : String} :
    target ∈ graphSuccessors edges nodeId ↔
      ∃ edge ∈ edges, edge.source = nodeId ∧ target ∈ edge.targets := by
  unfold graphSuccessors
  rw [List.mem_flatMap]
  refine exists_congr fun edge => and_congr_right fun _ => ?_
  split
  · next h => simp [h]
  · next h => simp [h]

theorem mem_graphReachable {workflow : CompiledWorkflow} {nodeId : String} :
    nodeId ∈ graphReachable workflow ↔ workflow.Reaches nodeId := by
  have hstart : workflow.startAt ∈
      workflow.startAt :: workflow.edges.flatMap WorkflowEdge.targets := List.mem_cons_self
  refine Worklist.mem_visit hstart ?_ ?_
  · intro source target htarget
    obtain ⟨edge, hedge, -, htarget⟩ := mem_graphSuccessors.1 htarget
    exact List.mem_cons_of_mem _ (List.mem_flatMap.2 ⟨edge, hedge, htarget⟩)
  · rw [List.length_cons, Nat.add_comm]

theorem assertAllNodesReachable_ok {workflow : CompiledWorkflow} {r : Unit} :
    assertAllNodesReachable workflow = .ok r ↔
      ∀ nodeId ∈ workflow.nodes.map Prod.fst, workflow.Reaches nodeId := by
  simp only [assertAllNodesReachable, require_ok, List.filter_eq_nil_iff, decide_eq_true_eq,
    not_not, mem_graphReachable]

/-- A node id of an executable workflow is no member of `Object.prototype`. -/
theorem ExecutableWorkflow.ownIds (workflow : ExecutableWorkflow) :
    ∀ id ∈ workflow.nodes.map Prod.fst, isInheritedName id = false := by
  have hvalid := workflow.valid
  simp only [validateWorkflowDefinition, bind_ok] at hvalid
  obtain ⟨_, hshape, -⟩ := hvalid
  obtain ⟨-, -, -, -, -, hnodes, -⟩ := assertValidWorkflowDefinitionShape_ok.1 hshape
  exact fun id hid => (assertValidNodeId_ok.1 (hnodes id hid)).2.2

end PiWorkflows
