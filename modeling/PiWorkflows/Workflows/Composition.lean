import PiWorkflows.Lib.Worklist
import PiWorkflows.Workflows.Transitions

/-!
# Compiling includes into one graph (`workflows/composition.ts`)

A workflow may mount others. Compilation copies every mounted workflow into one
graph under qualified ids, puts an entry node before each mount and an exit node
behind each of its declared exits, and keeps what it needs to know about them
beside the graph: the scopes, the entries by their node id, which is the mount
path itself, and the exits by theirs.

A definition is a tree here: the same child may stand in it twice, and the
source's check for a definition that includes itself has nothing to find. What a
node runs is left out; a node keeps what its snapshot shows of it.
-/

namespace PiWorkflows

open Fallible

/-! ## Authored definitions -/

/-- A node of an authored workflow. -/
structure AuthoredNode where
  nodeType : NodeType
  statusDetail : Option String := none
  settingsRoute : Bool := false

mutual

/-- `WorkflowDefinition`, with each include already resolved or not at all. An
exit is listed with the node it leaves from. -/
inductive AuthoredWorkflow where
  | mk (name startAt : String) (maxSteps : Option Nat) (settings : Bool)
      (nodes : List (String × AuthoredNode)) (edges : List WorkflowEdge)
      (exits : List (String × String)) (includes : AuthoredIncludes)

/-- The `includes` record of a definition. `mapsSettings` says that the include
has a settings mapping. -/
inductive AuthoredIncludes where
  | none
  | mount (name : String) (mapsSettings : Bool) (workflow : AuthoredWorkflow)
      (rest : AuthoredIncludes)
  | unresolved (name reference : String) (rest : AuthoredIncludes)

end

namespace AuthoredWorkflow

def name : AuthoredWorkflow → String | mk name .. => name
def startAt : AuthoredWorkflow → String | mk _ startAt .. => startAt
def maxSteps : AuthoredWorkflow → Option Nat | mk _ _ maxSteps .. => maxSteps
def settings : AuthoredWorkflow → Bool | mk _ _ _ settings .. => settings
def nodes : AuthoredWorkflow → List (String × AuthoredNode) | mk _ _ _ _ nodes .. => nodes
def edges : AuthoredWorkflow → List WorkflowEdge | mk _ _ _ _ _ edges .. => edges
def exits : AuthoredWorkflow → List (String × String) | mk _ _ _ _ _ _ exits _ => exits
def includes : AuthoredWorkflow → AuthoredIncludes | mk _ _ _ _ _ _ _ includes => includes

end AuthoredWorkflow

def AuthoredIncludes.names : AuthoredIncludes → List String
  | .none => []
  | .mount name _ _ rest => name :: rest.names
  | .unresolved name _ rest => name :: rest.names

/-- The definition an include resolves to. -/
def AuthoredIncludes.child? : AuthoredIncludes → String → Option AuthoredWorkflow
  | .none, _ => Option.none
  | .mount name _ workflow rest, key => if name = key then some workflow else rest.child? key
  | .unresolved name _ rest, key => if name = key then Option.none else rest.child? key

/-! ## The shape of names (`workflows/schema.ts`) -/

/-- `NODE_ID_PATTERN`. -/
def isNodeId (segment : String) : Bool :=
  match segment.toList with
  | [] => false
  | c :: cs =>
      (c.isAlpha || c == '_') && cs.all fun d => d.isAlphanum || d == '_' || d == '-'

/-- The names that compilation keeps for itself. -/
def isReservedName (segment : String) : Bool :=
  "__piw_".toList.isPrefixOf segment.toList

/-- A name an author may give to a node, an include or an exit. -/
def isAuthoredName (segment : String) : Bool :=
  isNodeId segment && !isReservedName segment

/-- `NODE_ID_MAX_BYTES`. -/
def nodeIdMaxBytes : Nat := 4 * 1024

/-- A node id of an authored definition. -/
def isAuthoredNodeId (nodeId : String) : Bool :=
  isAuthoredName nodeId && nodeId.utf8ByteSize ≤ nodeIdMaxBytes && !isInheritedName nodeId

mutual

/-- The checks of `assertValidWorkflowDefinitionShape` on the names of a
definition and of every one it includes. -/
def AuthoredWorkflow.wellNamed : AuthoredWorkflow → Bool
  | .mk _ startAt _ _ nodes _ exits includes =>
      startAt ≠ "" && !nodes.isEmpty && nodes.all (fun node => isAuthoredNodeId node.1)
        && includes.wellNamed nodes
        && exits.all fun exit => isAuthoredName exit.1 && exit.2 ≠ ""

def AuthoredIncludes.wellNamed : AuthoredIncludes → List (String × AuthoredNode) → Bool
  | .none, _ => true
  | .mount name _ workflow rest, nodes =>
      isAuthoredName name && (nodes.lookup name).isNone && workflow.wellNamed
        && rest.wellNamed nodes
  | .unresolved name _ rest, nodes =>
      isAuthoredName name && (nodes.lookup name).isNone && rest.wellNamed nodes

end

/-! ## Checks on one authored definition -/

/-- `qualify`. -/
def qualify (scopePath localId : String) : String :=
  if scopePath = "" then localId else scopePath ++ "/" ++ localId

/-- `parseExitReference`: exactly one dot, with a name on each side. -/
def parseExitReference (value : String) : Option (String × String) :=
  match splitText '.' value with
  | [mount, exit] => if mount ≠ "" ∧ exit ≠ "" then some (mount, exit) else none
  | _ => none

/-- Where an edge may lead. -/
def WorkflowEdge.targets : WorkflowEdge → List String
  | .plain _ target => [target]
  | .switch _ _ cases => cases.map Prod.snd

/-- `Object.hasOwn(record, key)`. -/
def hasOwn {α : Type} (record : List (String × α)) (key : String) : Bool :=
  (record.lookup key).isSome

/-- `assertAuthoredFrom`. -/
def assertAuthoredFrom (workflow : AuthoredWorkflow) (source : String) : Except String PUnit :=
  require
    (hasOwn workflow.nodes source = true ∨
      ((parseExitReference source).any fun parsed =>
        (workflow.includes.child? parsed.1).any fun child => hasOwn child.exits parsed.2) = true)
    s!"Workflow edge references unknown from-node or include exit: {source}"

/-- A node or an include of the definition. -/
def isAuthoredTarget (workflow : AuthoredWorkflow) (target : String) : Bool :=
  hasOwn workflow.nodes target || decide (target ∈ workflow.includes.names)

/-- `assertAuthoredTo`. -/
def assertAuthoredTo (workflow : AuthoredWorkflow) (target : String) : Except String PUnit :=
  require (isAuthoredTarget workflow target = true)
    s!"Workflow edge references unknown to-node: {target}"

/-- The loop over the edges, which collects where they start. -/
def validateEdges (workflow : AuthoredWorkflow) :
    List WorkflowEdge → List String → Except String (List String)
  | [], outgoing => pure outgoing
  | edge :: edges, outgoing => do
      require (edge.source ∉ outgoing)
        s!"Workflow node must not declare multiple outgoing edges: {edge.source}"
      assertAuthoredFrom workflow edge.source
      let _ ← edge.targets.mapM (assertAuthoredTo workflow)
      validateEdges workflow edges (edge.source :: outgoing)

/-- The loop over the exits, which collects the nodes they leave from. -/
def validateExits (workflow : AuthoredWorkflow) (outgoing : List String) :
    List (String × String) → List String → Except String (List String)
  | [], exitNodes => pure exitNodes
  | (exitName, source) :: exits, exitNodes => do
      require (hasOwn workflow.nodes source = true)
        s!"Workflow exit {exitName} references unknown node: {source}"
      require (source ∉ outgoing)
        s!"Workflow exit {exitName} must reference a terminal node: {source}"
      require (source ∉ exitNodes) s!"Workflow terminal node has more than one exit: {source}"
      validateExits workflow outgoing exits (source :: exitNodes)

/-- What one visited id leads to: the targets of its edge and, for an include,
its exits. -/
def authoredSuccessors (workflow : AuthoredWorkflow) (source : String) : List String :=
  ((outgoingEdge workflow.edges source).map WorkflowEdge.targets).getD []
  ++ ((workflow.includes.child? source).map fun child =>
      child.exits.map fun exit => source ++ "." ++ exit.1).getD []

/-- How many exits the mounted definitions declare. -/
def AuthoredIncludes.exitCount : AuthoredIncludes → Nat
  | .none => 0
  | .mount _ _ workflow rest => workflow.exits.length + rest.exitCount
  | .unresolved _ _ rest => rest.exitCount

/-- The ids the walk of a definition reaches; `addReachable` queues each of them once. -/
def authoredReachable (workflow : AuthoredWorkflow) : List String :=
  let fuel := 1 + (workflow.edges.flatMap WorkflowEdge.targets).length
    + workflow.includes.exitCount
  Worklist.visit (authoredSuccessors workflow) fuel [workflow.startAt] [workflow.startAt]

/-- `validateAuthoredWorkflow`. -/
def validateAuthoredWorkflow (workflow : AuthoredWorkflow) (included : Bool) :
    Except String PUnit := do
  require (hasOwn workflow.nodes workflow.startAt = true)
    s!"Workflow start node is missing: {workflow.startAt}"
  let outgoing ← validateEdges workflow workflow.edges []
  let exitNodes ← validateExits workflow outgoing workflow.exits []
  let undeclared := (workflow.nodes.map Prod.fst).filter fun nodeId =>
    decide (nodeId ∉ outgoing ∧ nodeId ∉ exitNodes)
  let listed := String.intercalate ", " undeclared
  require (included = true → undeclared = [])
    s!"Included workflow {workflow.name} has terminal nodes without named exits: {listed}"
  let reachable := authoredReachable workflow
  let unreachable := (workflow.nodes.map Prod.fst ++ workflow.includes.names).filter
    fun id => decide (id ∉ reachable)
  let listed := String.intercalate ", " unreachable
  require (unreachable = []) s!"Workflow has unreachable nodes: {listed}"

/-! ## Mounting -/

/-- `WorkflowScopeMetadata`. -/
structure ScopeMetadata where
  path : String
  workflowName : String
  maxSteps : Option Nat
  settings : Bool
  authoredNodes : List (String × String)
  childMounts : List (String × String)

/-- `WorkflowEntryMetadata`. -/
structure EntryMetadata where
  mountPath : String
  mountName : String
  parentPath : String
  workflowName : String
  settings : Bool

/-- `WorkflowExitMetadata`. -/
structure ExitMetadata where
  nodeId : String
  mountPath : String
  mountName : String
  parentPath : String
  exitName : String
  fromNode : String

/-- `WorkflowMountSnapshot`. -/
structure MountSnapshot where
  mountPath : List String
  workflowName : String
  entryNode : String
  exits : List (String × String)
  maxSteps : Option Nat

/-- The records `compileWorkflowDefinition` fills while it mounts. -/
structure Compilation where
  nodes : List (String × AuthoredNode) := []
  edges : List WorkflowEdge := []
  mounts : List MountSnapshot := []
  scopes : List (String × ScopeMetadata) := []
  entries : List (String × EntryMetadata) := []
  exits : List (String × ExitMetadata) := []

/-- The node id of an exit. -/
def exitNodeId (mountPath exitName : String) : String :=
  qualify mountPath ("__piw_exit_" ++ exitName)

/-- The scope record and the qualified nodes of a mounted definition. -/
def mountScope (current : AuthoredWorkflow) (scopePath : String) (acc : Compilation) :
    Compilation :=
  let scope : ScopeMetadata :=
    { path := scopePath
      workflowName := current.name
      maxSteps := current.maxSteps
      settings := current.settings
      authoredNodes := current.nodes.map fun node => (node.1, qualify scopePath node.1)
      childMounts := current.includes.names.map fun name => (name, qualify scopePath name) }
  { acc with
    scopes := assignMember scopePath scope acc.scopes
    nodes := current.nodes.foldl
      (fun nodes node => assignMember (qualify scopePath node.1) node.2 nodes) acc.nodes }

/-- The entry node of an include, and the edge into the child. -/
def mountEntry (child : AuthoredWorkflow) (scopePath name : String) (mapsSettings : Bool)
    (acc : Compilation) : Compilation :=
  let mountPath := qualify scopePath name
  { acc with
    entries := assignMember mountPath
      { mountPath, mountName := name, parentPath := scopePath
        workflowName := child.name, settings := mapsSettings } acc.entries
    nodes := assignMember mountPath
      { nodeType := .compute, statusDetail := some ("entering " ++ child.name) } acc.nodes
    edges := acc.edges ++ [.plain mountPath (qualify mountPath child.startAt)] }

/-- One exit node of an include, and the edge into it. -/
def mountExit (child : AuthoredWorkflow) (scopePath name : String) (acc : Compilation)
    (exit : String × String) : Compilation :=
  let mountPath := qualify scopePath name
  let nodeId := exitNodeId mountPath exit.1
  let fromNode := qualify mountPath exit.2
  { acc with
    exits := assignMember nodeId
      { nodeId, mountPath, mountName := name, parentPath := scopePath
        exitName := exit.1, fromNode } acc.exits
    nodes := assignMember nodeId
      { nodeType := .compute
        statusDetail := some ("leaving " ++ child.name ++ " through " ++ exit.1) } acc.nodes
    edges := acc.edges ++ [.plain fromNode nodeId] }

/-- `resolveAuthoredFrom`. -/
def resolveAuthoredFrom (scopePath : String) (workflow : AuthoredWorkflow) (source : String)
    (exits : List (String × ExitMetadata)) : Except String String :=
  if hasOwn workflow.nodes source then .ok (qualify scopePath source)
  else
    match parseExitReference source with
    | none => .error s!"Invalid include exit reference: {source}"
    | some (mount, exitName) =>
        let found := (exits.map Prod.snd).find? fun exit =>
          exit.mountPath = qualify scopePath mount ∧ exit.exitName = exitName
        orThrow s!"Unknown include exit reference: {source}" (found.map ExitMetadata.nodeId)

/-- `resolveAuthoredTo`. -/
def resolveAuthoredTo (scopePath : String) (workflow : AuthoredWorkflow) (target : String) :
    Except String String :=
  if isAuthoredTarget workflow target then .ok (qualify scopePath target)
  else .error s!"Unknown workflow target: {target}"

/-- One authored edge under qualified ids. -/
def resolveAuthoredEdge (scopePath : String) (workflow : AuthoredWorkflow)
    (exits : List (String × ExitMetadata)) (edge : WorkflowEdge) : Except String WorkflowEdge := do
  let source ← resolveAuthoredFrom scopePath workflow edge.source exits
  match edge with
  | .plain _ target =>
      let target ← resolveAuthoredTo scopePath workflow target
      pure (.plain source target)
  | .switch _ on cases =>
      let cases ← cases.mapM fun (key, target) => do
        let target ← resolveAuthoredTo scopePath workflow target
        pure (key, target)
      pure (.switch source on cases)

/-- The definition's own edges. -/
def mountEdges (current : AuthoredWorkflow) (scopePath : String) (acc : Compilation) :
    Except String Compilation := do
  let edges ← current.edges.mapM (resolveAuthoredEdge scopePath current acc.exits)
  pure { acc with edges := acc.edges ++ edges }

/-- The checks before an include is mounted. -/
def checkInclude (child : AuthoredWorkflow) (mountPath : String) (mapsSettings : Bool) :
    Except String PUnit := do
  require (mapsSettings = true → child.settings = true)
    s!"Workflow include {mountPath} maps settings but child {child.name} declares none"
  require (child.exits ≠ []) s!"Included workflow {child.name} must declare at least one exit"

/-- The snapshot of one mount. -/
def mountSnapshot (child : AuthoredWorkflow) (mountPath : String) : MountSnapshot where
  mountPath := splitText '/' mountPath
  workflowName := child.name
  entryNode := mountPath
  exits := child.exits.map fun exit => (exit.1, exitNodeId mountPath exit.1)
  maxSteps := child.maxSteps

mutual

/-- `mountWorkflow`: check a definition, copy its nodes, mount what it includes
and last add its own edges, which may start at exits of its includes. -/
def mountWorkflow (current : AuthoredWorkflow) (scopePath : String) (acc : Compilation) :
    Except String Compilation :=
  match current with
  | .mk name startAt maxSteps settings nodes edges exits includes => do
      let current := AuthoredWorkflow.mk name startAt maxSteps settings nodes edges exits includes
      validateAuthoredWorkflow current (scopePath ≠ "")
      let mounted ← mountIncludes includes scopePath (mountScope current scopePath acc)
      mountEdges current scopePath mounted

/-- The loop over the includes of a definition. -/
def mountIncludes (includes : AuthoredIncludes) (scopePath : String) (acc : Compilation) :
    Except String Compilation :=
  match includes with
  | .none => .ok acc
  | .unresolved name reference _ =>
      .error s!"Workflow include {qualify scopePath name} is unresolved: {reference}"
  | .mount name mapsSettings child rest => do
      let mountPath := qualify scopePath name
      checkInclude child mountPath mapsSettings
      let entered := mountEntry child scopePath name mapsSettings acc
      let exited := child.exits.foldl (mountExit child scopePath name) entered
      let mounted ← mountWorkflow child mountPath
        { exited with mounts := exited.mounts ++ [mountSnapshot child mountPath] }
      mountIncludes rest scopePath mounted

end

/-- The compiled graph and what is kept beside it. -/
structure CompiledWorkflow where
  name : String
  startAt : String
  maxSteps : Option Nat
  nodes : List (String × AuthoredNode)
  edges : List WorkflowEdge
  mounts : List MountSnapshot
  scopes : List (String × ScopeMetadata)
  entries : List (String × EntryMetadata)
  exits : List (String × ExitMetadata)

/-- `compileWorkflowDefinition`. -/
def compileWorkflowDefinition (workflow : AuthoredWorkflow) : Except String CompiledWorkflow := do
  validateAuthoredWorkflow workflow false
  let mounted ← mountWorkflow workflow "" {}
  pure
    { name := workflow.name, startAt := workflow.startAt, maxSteps := workflow.maxSteps
      nodes := mounted.nodes, edges := mounted.edges, mounts := mounted.mounts
      scopes := mounted.scopes, entries := mounted.entries, exits := mounted.exits }

end PiWorkflows
