import PiWorkflows.Js.Value
import PiWorkflows.Render.Graph
import PiWorkflows.Workflows.Validation

/-!
# The layout of a workflow graph in the terminal (`tui/src/layout.rs`)

The terminal lays a graph out by itself and says that it does so as `render/graph.ts`
does. Both start from one text, the canonical JSON of the definition snapshot, which
lists the members of an object in an order of its own: a browser makes objects of it,
that enumerate in the order of JavaScript, and the terminal keeps them as they come.

The edges are marked in place here, levels are `i64` numbers that start from one below
zero, and the cells of a rank find their new places in a vector. What a vector or a
map is indexed with is checked, and a failed check ends the call (`none`). The scores
of cells are rational, as in the model of the other side. A `HashMap` is a list of
entries, and nothing depends on their order.
-/

namespace PiWorkflows

/-! ## The snapshot as a document -/

/-- The part of `createDefinitionSnapshot` that a layout reads. -/
def CompiledWorkflow.graph (workflow : CompiledWorkflow) : GraphSnapshot where
  startAt := workflow.startAt
  nodes := workflow.nodes.map Prod.fst
  edges := workflow.edges

/-- The members of an object in canonical JSON: `canonicalJson` gives them to a new object by
their sorted names, and the text lists them as that object enumerates them. -/
def canonicalMembers {α : Type} (members : List (String × α)) : List (String × α) :=
  (fromEntries (members.foldr (fun e sorted => Assoc.insertMember unitRank (units e.1) e sorted)
    [])).map Prod.snd

/-- The members of the object that `JSON.parse` makes of a text with these. -/
def parsedMembers {α : Type} (members : List (String × α)) : List (String × α) :=
  (fromEntries (members.map fun e => (units e.1, e))).map Prod.snd

/-- The members of the `serde_json::Map` that is read from a text with these. It keeps the order
in which it first met the names. -/
def decodedMembers {α : Type} (members : List (String × α)) : List (String × α) :=
  members.foldl (fun map e => Assoc.setKey e.1 e.2 map) []

/-- An edge with the members of its `cases` rewritten. -/
def WorkflowEdge.mapCases (f : List (String × String) → List (String × String)) :
    WorkflowEdge → WorkflowEdge
  | .plain source target => .plain source target
  | .switch source on cases => .switch source on (f cases)

/-- A snapshot with the members of its objects rewritten. -/
def GraphSnapshot.mapMembers (f : ∀ {α : Type}, List (String × α) → List (String × α))
    (snapshot : GraphSnapshot) : GraphSnapshot where
  startAt := snapshot.startAt
  nodes := (f (snapshot.nodes.map fun nodeId => (nodeId, ()))).map Prod.fst
  edges := snapshot.edges.map (WorkflowEdge.mapCases f)

/-- What the canonical text of the snapshot says. -/
def GraphSnapshot.canonical (snapshot : GraphSnapshot) : GraphSnapshot :=
  snapshot.mapMembers canonicalMembers

/-- The value that `JSON.parse` makes of a text that says this. -/
def GraphSnapshot.parsed (document : GraphSnapshot) : GraphSnapshot :=
  document.mapMembers parsedMembers

/-- The `DefinitionSnapshot` that is read from a text that says this. -/
def GraphSnapshot.decoded (document : GraphSnapshot) : GraphSnapshot :=
  document.mapMembers decodedMembers

namespace Tui

/-! ## Labels (`tui/src/format.rs`) -/

/-- `strip_ansi`. The flag tells that the text stands inside an escape sequence. -/
def stripAnsi : Bool → List Char → List Char
  | _, [] => []
  | true, c :: rest => stripAnsi (!c.isAlpha) rest
  | false, '\x1b' :: '[' :: rest => stripAnsi true rest
  | false, c :: rest => c :: stripAnsi false rest

/-- C0 controls, DEL and C1 controls. -/
def isControl (c : Char) : Bool :=
  c.toNat ≤ 0x1f || 0x7f ≤ c.toNat && c.toNat ≤ 0x9f

/-- The loop of `sanitize_text`. -/
def dropControls (pendingSpace : Bool) : List Char → List Char
  | [] => if pendingSpace then [' '] else []
  | c :: rest =>
      if c = '\t' ∨ c = '\n' ∨ c = '\r' then dropControls true rest
      else
        (if pendingSpace then [' '] else []) ++
          ((if isControl c then [] else [c]) ++ dropControls false rest)

/-- `sanitize_text`. -/
def sanitizeText (text : String) : String :=
  String.ofList (dropControls false (stripAnsi false text.toList))

/-! ## Edges -/

def expandEdge (edge : WorkflowEdge) (index : Nat) : List GraphEdge :=
  match edge with
  | .plain source target => [⟨graphEdgeId source target index 0, source, target, none, false⟩]
  | .switch source _ cases =>
      cases.zipIdx.map fun e =>
        ⟨graphEdgeId source e.1.2 index e.2, source, e.1.2, some (sanitizeText e.1.1), false⟩

/-- `expand_edges`. -/
def expandEdges (snapshot : GraphSnapshot) : List GraphEdge :=
  snapshot.edges.zipIdx.flatMap fun e => expandEdge e.1 e.2

/-- The loop of `bfs_order`, with the visited nodes beside the ordered ones. -/
def bfsLoop (edges : List GraphEdge) (queue visited ordered : List String) :
    List String × List String :=
  match queue with
  | [] => (visited, ordered)
  | nodeId :: queue =>
      if nodeId ∈ visited then bfsLoop edges queue visited ordered
      else
        bfsLoop edges (queue ++ edgeTargets edges nodeId) (visited ++ [nodeId])
          (ordered ++ [nodeId])
termination_by (edges.filter fun edge => edge.source ∉ visited).length + queue.length
decreasing_by
  · simp
  · next h =>
      have hlength := unseen_length edges h
      rw [List.length_append, List.length_cons]
      omega

/-- A node that no edge led to, at the end of `bfs_order`. -/
def addUnvisited (st : List String × List String) (nodeId : String) :
    List String × List String :=
  if nodeId ∈ st.1 then st else (st.1 ++ [nodeId], st.2 ++ [nodeId])

/-- `bfs_order`. -/
def bfsOrder (snapshot : GraphSnapshot) (edges : List GraphEdge) : List String :=
  (snapshot.nodes.foldl addUnvisited (bfsLoop edges [snapshot.startAt] [] [])).2

/-- `mark_back_edges`, which sets the marks at the places of the edges. -/
def markBackEdges (edges : List GraphEdge) (orderedNodeIds : List String) : List GraphEdge :=
  let found := DepthFirst.search (fun e : GraphEdge × Nat => e.1.source) (fun e => e.1.target)
    edges.zipIdx orderedNodeIds.length orderedNodeIds
  edges.zipIdx.map fun e => if e ∈ found.marked then { e.1 with isBackEdge := true } else e.1

/-! ## Ranks -/

/-- One edge of a pass of `compute_longest_levels`. -/
def relaxLevel (st : List (String × Int) × Bool) (edge : GraphEdge) : List (String × Int) × Bool :=
  match st.1.lookup edge.source with
  | none => st
  | some fromLevel =>
      let proposed := fromLevel + 1
      if proposed > (st.1.lookup edge.target).getD (-1) then
        (Assoc.setKey edge.target proposed st.1, true)
      else st

/-- At most so many passes. -/
def levelPasses (forwardEdges : List GraphEdge) : Nat → List (String × Int) → List (String × Int)
  | 0, levels => levels
  | count + 1, levels =>
      let (levels, changed) := forwardEdges.foldl relaxLevel (levels, false)
      if changed then levelPasses forwardEdges count levels else levels

/-- `compute_longest_levels`. -/
def computeLongestLevels (startAt : String) (orderedNodeIds : List String)
    (forwardEdges : List GraphEdge) : List (String × Int) :=
  levelPasses forwardEdges (orderedNodeIds.length + 1) [(startAt, 0)]

/-- `outgoing`. -/
def outgoingTargets (forwardEdges : List GraphEdge) : List (String × List String) :=
  forwardEdges.foldl
    (fun outgoing edge =>
      Assoc.setKey edge.source ((outgoing.lookup edge.source).getD [] ++ [edge.target]) outgoing)
    []

/-- `outgoing_counts`. -/
def outgoingCounts (forwardEdges : List GraphEdge) : List (String × Nat) :=
  forwardEdges.foldl
    (fun counts edge =>
      Assoc.setKey edge.source ((counts.lookup edge.source).getD 0 + 1) counts)
    []

theorem unknown_lt {outgoing : List (String × List String)} {memo : List (String × Option Int)}
    {nodeId child : String} (hmemo : memo.lookup nodeId = none)
    (htargets : (outgoing.lookup nodeId).getD [] = [child]) :
    (outgoing.filter fun e => ((Assoc.setKey nodeId none memo).lookup e.1).isNone).length <
      (outgoing.filter fun e => (memo.lookup e.1).isNone).length := by
  have hsub : (outgoing.filter fun e =>
        ((Assoc.setKey nodeId none memo).lookup e.1).isNone).Sublist
      (outgoing.filter fun e => (memo.lookup e.1).isNone) := by
    refine List.monotone_filter_right outgoing fun e he => ?_
    rw [Assoc.lookup_setKey] at he
    split at he
    · cases he
    · exact he
  obtain ⟨targets, htarget⟩ : ∃ targets, outgoing.lookup nodeId = some targets := by
    cases h : outgoing.lookup nodeId with
    | none =>
        rw [h] at htargets
        cases htargets
    | some targets => exact ⟨targets, rfl⟩
  have hmem : (nodeId, targets) ∈ outgoing.filter fun e => (memo.lookup e.1).isNone :=
    List.mem_filter.2 ⟨Assoc.mem_of_lookup htarget, by rw [hmemo]; rfl⟩
  refine lt_of_le_of_ne hsub.length_le fun heq => ?_
  rw [← hsub.eq_of_length heq, List.mem_filter, Assoc.lookup_setKey, if_pos rfl] at hmem
  cases hmem.2

/-- The inner `visit` of `compute_tail_depths`. -/
def tailDepth (outgoing : List (String × List String)) (terminal : List String)
    (memo : List (String × Option Int)) (nodeId : String) :
    List (String × Option Int) × Option Int :=
  match _hmemo : memo.lookup nodeId with
  | some existing => (memo, existing)
  | none =>
      if nodeId ∈ terminal then (Assoc.setKey nodeId (some 0) memo, some 0)
      else
        match _htargets : (outgoing.lookup nodeId).getD [] with
        | [child] =>
            let (memo, childDepth) :=
              tailDepth outgoing terminal (Assoc.setKey nodeId none memo) child
            let depth := childDepth.map (· + 1)
            (Assoc.setKey nodeId depth memo, depth)
        | _ => (Assoc.setKey nodeId none memo, none)
termination_by (outgoing.filter fun e => (memo.lookup e.1).isNone).length
decreasing_by exact unknown_lt ‹_› ‹_›

/-- `compute_tail_depths`. -/
def computeTailDepths (orderedNodeIds : List String) (forwardEdges : List GraphEdge)
    (terminalNodeIds : List String) : List (String × Int) :=
  let outgoing := outgoingTargets forwardEdges
  (orderedNodeIds.foldl (fun memo nodeId => (tailDepth outgoing terminalNodeIds memo nodeId).1)
      []).filterMap fun entry => entry.2.map fun depth => (entry.1, depth)

/-- `values().copied().max().unwrap_or(0).max(0)`. -/
def highestLevel (levels : List (String × Int)) : Int :=
  max ((levels.map Prod.snd).max?.getD 0) 0

/-- The rank of one node, beside the last rank given to a node without a level. -/
def baseRank (longest : List (String × Int)) (st : List (String × Int) × Int) (nodeId : String) :
    List (String × Int) × Int :=
  match longest.lookup nodeId with
  | some base => (Assoc.setKey nodeId base st.1, st.2)
  | none => (Assoc.setKey nodeId (st.2 + 1) st.1, st.2 + 1)

/-- The ranks before tails are pulled down. -/
def baseRanks (longest : List (String × Int)) (orderedNodeIds : List String) :
    List (String × Int) :=
  (orderedNodeIds.foldl (baseRank longest) ([], highestLevel longest)).1

/-- The pull-down of tails. -/
def pullTails (tailDepths : List (String × Int)) (maxRank : Int) (orderedNodeIds : List String)
    (ranks : List (String × Int)) : List (String × Int) :=
  orderedNodeIds.foldl
    (fun ranks nodeId =>
      match tailDepths.lookup nodeId with
      | some tailDepth =>
          let current := (ranks.lookup nodeId).getD 0
          Assoc.setKey nodeId (max current (maxRank - tailDepth)) ranks
      | none => ranks)
    ranks

/-- `compute_node_ranks`. -/
def computeNodeRanks (snapshot : GraphSnapshot) (orderedNodeIds : List String)
    (edges : List GraphEdge) : List (String × Nat) :=
  let forwardEdges := edges.filter isForward
  let longest := computeLongestLevels snapshot.startAt orderedNodeIds forwardEdges
  let counts := outgoingCounts forwardEdges
  let terminalNodeIds := orderedNodeIds.filter fun nodeId => (counts.lookup nodeId).getD 0 = 0
  let tailDepths := computeTailDepths orderedNodeIds forwardEdges terminalNodeIds
  let ranks := baseRanks longest orderedNodeIds
  (pullTails tailDepths (highestLevel ranks) orderedNodeIds ranks).map fun e =>
    (e.1, (max e.2 0).toNat)

/-! ## Cells -/

/-- The cell of a node. -/
def placeNode (rankOfNode : List (String × Nat))
    (st : List (List GraphCell) × List (String × CellRef)) (nodeId : String) :
    Option (List (List GraphCell) × List (String × CellRef)) := do
  let rank := (rankOfNode.lookup nodeId).getD 0
  let cells ← st.1[rank]?
  some (st.1.set rank (cells ++ [.node nodeId]),
    Assoc.setKey nodeId ⟨rank, cells.length⟩ st.2)

/-- A segment to a new cell of the edge in this rank. -/
def passThrough (edge : GraphEdge) (fromRank : Nat)
    (st : List (List GraphCell) × List GraphSegment × CellRef) (rank : Nat) :
    Option (List (List GraphCell) × List GraphSegment × CellRef) := do
  let (ranks, segments, previous) := st
  let cells ← ranks[rank]?
  some (ranks.set rank (cells ++ [.virtual edge.edgeId]),
    segments ++ [⟨edge.edgeId, previous.rank, previous.index, cells.length,
      segmentLabel edge fromRank previous⟩],
    ⟨rank, cells.length⟩)

/-- The segments of one edge. -/
def drawEdge (rankOfNode : List (String × Nat)) (cellRef : List (String × CellRef))
    (st : List (List GraphCell) × List GraphSegment) (edge : GraphEdge) :
    Option (List (List GraphCell) × List GraphSegment) :=
  if edge.isBackEdge then some st
  else
    match rankOfNode.lookup edge.source, rankOfNode.lookup edge.target with
    | some fromRank, some toRank =>
        if toRank ≤ fromRank then some st
        else do
          let first ← cellRef.lookup edge.source
          let (ranks, segments, previous) ←
            (List.range' (fromRank + 1) (toRank - (fromRank + 1))).foldlM
              (passThrough edge fromRank) (st.1, st.2, first)
          let target ← cellRef.lookup edge.target
          some (ranks, segments ++ [⟨edge.edgeId, previous.rank, previous.index, target.index,
            segmentLabel edge fromRank previous⟩])
    | _, _ => some st

/-! ## The order within a rank -/

/-- `inverse[old_index] = new_index`, for the whole order. -/
def inverseOrder (order : List Nat) : Option (List Nat) :=
  order.zipIdx.foldlM
    (fun inverse e => if e.1 < inverse.length then some (inverse.set e.1 e.2) else none)
    (List.replicate order.length 0)

/-- The new place of an end of a segment, if the end is in the rank. -/
def newPlace (inverse : List Nat) (inRank : Bool) (place : Nat) : Option Nat :=
  if inRank then inverse[place]? else some place

/-- The new places of the ends of a segment. -/
def reindexSegment (rank : Nat) (inverse : List Nat) (segment : GraphSegment) :
    Option GraphSegment := do
  let fromCell ← newPlace inverse (segment.rank = rank) segment.fromCell
  let toCell ← newPlace inverse (rank > 0 ∧ segment.rank = rank - 1) segment.toCell
  some { segment with fromCell, toCell }

/-- `reindex`. -/
def reindex (rank : Nat) (order : List Nat) (st : List (List GraphCell) × List GraphSegment) :
    Option (List (List GraphCell) × List GraphSegment) := do
  let cells ← st.1[rank]?
  let inverse ← inverseOrder order
  let row ← order.mapM fun old => cells[old]?
  let segments ← st.2.mapM (reindexSegment rank inverse)
  some (st.1.set rank row, segments)

/-- The places of the cells that a cell is joined to. -/
def neighbors (segments : List GraphSegment) (rank : Nat) (direction : SweepDirection)
    (index : Nat) : List Nat :=
  match direction with
  | .down =>
      (segments.filter fun segment =>
        rank > 0 ∧ segment.rank = rank - 1 ∧ segment.toCell = index).map GraphSegment.fromCell
  | .up =>
      (segments.filter fun segment => segment.rank = rank ∧ segment.fromCell = index).map
        GraphSegment.toCell

/-- The mean of the places, or `MAX_SAFE_INTEGER`. -/
def score (places : List Nat) : ℚ :=
  if places.isEmpty then 9007199254740991 else (places.sum : ℚ) / places.length

/-- `sort_rank`. -/
def sortRank (direction : SweepDirection) (st : List (List GraphCell) × List GraphSegment)
    (rank : Nat) : Option (List (List GraphCell) × List GraphSegment) := do
  let cells ← st.1[rank]?
  if cells.length < 2 then some st
  else
    let scores := (List.range cells.length).map fun index =>
      (index, score (neighbors st.2 rank direction index))
    let order := (scores.insertionSort fun left right =>
      left.2 < right.2 ∨ left.2 = right.2 ∧ left.1 ≤ right.1).map Prod.fst
    if order.zipIdx.any fun e => decide (e.2 ≠ e.1) then reindex rank order st else some st

/-- One sweep down and one up. -/
def sweep (st : List (List GraphCell) × List GraphSegment) :
    Option (List (List GraphCell) × List GraphSegment) := do
  let swept ← (List.range' 1 (st.1.length - 1)).foldlM (sortRank .down) st
  (List.range (swept.1.length - 1)).reverse.foldlM (sortRank .up) swept

/-- `order_ranks_by_barycenter`. -/
def orderRanksByBarycenter (st : List (List GraphCell) × List GraphSegment) :
    Option (List (List GraphCell) × List GraphSegment) :=
  (List.range 4).foldlM (fun st _ => sweep st) st

/-- `layout_graph`. -/
def layoutGraph (snapshot : GraphSnapshot) : Option GraphLayout := do
  let expanded := expandEdges snapshot
  let orderedNodeIds := bfsOrder snapshot expanded
  let edges := markBackEdges expanded orderedNodeIds
  let rankOfNode := computeNodeRanks snapshot orderedNodeIds edges
  let rankCount := (rankOfNode.map Prod.snd).max?.getD 0 + 1
  let (ranks, cellRef) ←
    orderedNodeIds.foldlM (placeNode rankOfNode) (List.replicate rankCount [], [])
  let (ranks, segments) ← edges.foldlM (drawEdge rankOfNode cellRef) (ranks, [])
  let (ranks, segments) ← orderRanksByBarycenter (ranks, segments)
  some ⟨ranks, edges, segments, rankOfNode⟩

end Tui

end PiWorkflows
