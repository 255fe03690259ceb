import Mathlib.Data.List.Sort
import Mathlib.Data.Rat.Defs
import Mathlib.Algebra.Order.Ring.Unbundled.Rat
import PiWorkflows.Lib.DepthFirst
import PiWorkflows.Lib.Layers
import PiWorkflows.Workflows.Composition

/-!
# The layout of a workflow graph (`render/graph.ts`)

The viewer draws a graph in ranks. Switches are expanded to an edge for each case, the
edges that close a cycle are set apart, every other edge leads down, and where it
spans more than one rank it passes through cells of its own. Then the cells of each
rank are put in order, rank by rank and several times over, and the segments that
refer to cells by their place are rewritten with them.

A map is the list of its entries. The places that scores compare are whole numbers
and their means are rational here.
-/

namespace PiWorkflows

/-- The parts of a `WorkflowDefinitionSnapshot` that the layout reads. -/
structure GraphSnapshot where
  startAt : String
  nodes : List String
  edges : List WorkflowEdge

/-- `GraphEdge`. -/
structure GraphEdge where
  edgeId : String
  source : String
  target : String
  label : Option String
  isBackEdge : Bool
  deriving DecidableEq

/-- `GraphCell`. -/
inductive GraphCell where
  | node (nodeId : String)
  | virtual (edgeId : String)
  deriving DecidableEq

/-- `GraphSegment`, from its rank to the next one. -/
structure GraphSegment where
  edgeId : String
  rank : Nat
  fromCell : Nat
  toCell : Nat
  label : Option String

/-- `GraphLayout`. -/
structure GraphLayout where
  ranks : List (List GraphCell)
  edges : List GraphEdge
  segments : List GraphSegment
  rankOfNode : List (String × Nat)

/-! ## Edges -/

/-- The id of an edge: the index of the authored edge and of the case tell it from others. -/
def graphEdgeId (source target : String) (index branch : Nat) : String :=
  source ++ "->" ++ target ++ "#" ++ index.repr ++ "." ++ branch.repr

def expandEdge (edge : WorkflowEdge) (index : Nat) : List GraphEdge :=
  match edge with
  | .plain source target => [⟨graphEdgeId source target index 0, source, target, none, false⟩]
  | .switch source _ cases =>
      cases.zipIdx.map fun e =>
        ⟨graphEdgeId source e.1.2 index e.2, source, e.1.2, some e.1.1, false⟩

/-- `expandEdges`. -/
def expandEdges (snapshot : GraphSnapshot) : List GraphEdge :=
  snapshot.edges.zipIdx.flatMap fun e => expandEdge e.1 e.2

/-- Where the edges of a node lead, in order. -/
def edgeTargets (edges : List GraphEdge) (nodeId : String) : List String :=
  (edges.filter fun edge => edge.source = nodeId).map GraphEdge.target

theorem unseen_length (edges : List GraphEdge) {ordered : List String} {nodeId : String}
    (h : nodeId ∉ ordered) :
    (edges.filter fun edge => edge.source ∉ ordered).length =
      (edges.filter fun edge => edge.source ∉ ordered ++ [nodeId]).length +
        (edgeTargets edges nodeId).length := by
  have hsplit := List.length_eq_length_filter_add (l := edges.filter fun e => e.source ∉ ordered)
    fun e => decide (e.source = nodeId)
  have hnode : (edges.filter fun e => e.source ∉ ordered).filter (fun e => decide (e.source = nodeId)) =
      edges.filter fun e => e.source = nodeId := by
    rw [List.filter_filter]
    refine List.filter_congr fun e _ => ?_
    by_cases heq : e.source = nodeId
    · simp [heq, h]
    · simp [heq]
  have hother : (edges.filter fun e => e.source ∉ ordered).filter
      (fun e => !decide (e.source = nodeId)) =
      edges.filter fun e => e.source ∉ ordered ++ [nodeId] := by
    rw [List.filter_filter]
    refine List.filter_congr fun e _ => ?_
    simp [and_comm]
  rw [hnode, hother] at hsplit
  rw [edgeTargets, List.length_map, hsplit, Nat.add_comm]

/-- The loop of `bfsOrder`. Every visited node takes its edges to the queue once. -/
def bfsLoop (edges : List GraphEdge) (queue ordered : List String) : List String :=
  match queue with
  | [] => ordered
  | nodeId :: queue =>
      if nodeId ∈ ordered then bfsLoop edges queue ordered
      else bfsLoop edges (queue ++ edgeTargets edges nodeId) (ordered ++ [nodeId])
termination_by (edges.filter fun edge => edge.source ∉ ordered).length + queue.length
decreasing_by
  · simp
  · next h =>
      have hlength := unseen_length edges h
      rw [List.length_append, List.length_cons]
      omega

/-- `bfsOrder`. -/
def bfsOrder (snapshot : GraphSnapshot) (edges : List GraphEdge) : List String :=
  snapshot.nodes.foldl
    (fun ordered nodeId => if nodeId ∈ ordered then ordered else ordered ++ [nodeId])
    (bfsLoop edges [snapshot.startAt] [])

/-- `markBackEdges`. -/
def markBackEdges (edges : List GraphEdge) (orderedNodeIds : List String) : List GraphEdge :=
  let found := DepthFirst.search GraphEdge.source GraphEdge.target edges orderedNodeIds.length
    orderedNodeIds
  edges.map fun edge => { edge with isBackEdge := decide (edge ∈ found.marked) }

/-! ## Ranks -/

/-- `computeLongestLevels`. -/
def computeLongestLevels (startAt : String) (orderedNodeIds : List String)
    (forwardEdges : List GraphEdge) : List (String × Nat) :=
  Layers.passes GraphEdge.source GraphEdge.target forwardEdges (orderedNodeIds.length + 1)
    [(startAt, 0)]

/-- The nodes whose depth is known, and whether they have one. -/
abbrev TailMemo := List (String × Option Nat)

theorem unknown_lt {forwardEdges : List GraphEdge} {memo : TailMemo} {nodeId child : String}
    (hmemo : memo.lookup nodeId = none) (htargets : edgeTargets forwardEdges nodeId = [child]) :
    (forwardEdges.filter fun edge =>
        ((Assoc.setKey nodeId none memo).lookup edge.source).isNone).length <
      (forwardEdges.filter fun edge => (memo.lookup edge.source).isNone).length := by
  have hsub : (forwardEdges.filter fun edge =>
        ((Assoc.setKey nodeId none memo).lookup edge.source).isNone).Sublist
      (forwardEdges.filter fun edge => (memo.lookup edge.source).isNone) := by
    refine List.monotone_filter_right forwardEdges fun edge hedge => ?_
    rw [Assoc.lookup_setKey] at hedge
    split at hedge
    · cases hedge
    · exact hedge
  have hchild : child ∈ edgeTargets forwardEdges nodeId := htargets ▸ List.mem_cons_self
  obtain ⟨edge, hedge, -⟩ := List.mem_map.1 hchild
  rw [List.mem_filter, decide_eq_true_eq] at hedge
  have hmem : edge ∈ forwardEdges.filter fun edge => (memo.lookup edge.source).isNone :=
    List.mem_filter.2 ⟨hedge.1, by rw [hedge.2, hmemo]; rfl⟩
  refine lt_of_le_of_ne hsub.length_le fun heq => ?_
  rw [← hsub.eq_of_length heq, List.mem_filter, hedge.2, Assoc.lookup_setKey, if_pos rfl] at hmem
  cases hmem.2

/-- The inner `visit` of `computeTailDepths`. -/
def tailDepth (forwardEdges : List GraphEdge) (terminalNodeIds : List String) (memo : TailMemo)
    (nodeId : String) : TailMemo × Option Nat :=
  match _hmemo : memo.lookup nodeId with
  | some existing => (memo, existing)
  | none =>
      if nodeId ∈ terminalNodeIds then (Assoc.setKey nodeId (some 0) memo, some 0)
      else
        match _htargets : edgeTargets forwardEdges nodeId with
        | [child] =>
            let (memo, childDepth) :=
              tailDepth forwardEdges terminalNodeIds (Assoc.setKey nodeId none memo) child
            let depth := childDepth.map (· + 1)
            (Assoc.setKey nodeId depth memo, depth)
        | _ => (Assoc.setKey nodeId none memo, none)
termination_by (forwardEdges.filter fun edge => (memo.lookup edge.source).isNone).length
decreasing_by exact unknown_lt ‹_› ‹_›

/-- `computeTailDepths`. -/
def computeTailDepths (orderedNodeIds : List String) (forwardEdges : List GraphEdge)
    (terminalNodeIds : List String) : List (String × Nat) :=
  (orderedNodeIds.foldl
      (fun memo nodeId => (tailDepth forwardEdges terminalNodeIds memo nodeId).1) []).filterMap
    fun entry => entry.2.map fun depth => (entry.1, depth)

/-- `Math.max(0, ...map.values())`. -/
def highest (ranks : List (String × Nat)) : Nat :=
  (ranks.map Prod.snd).foldl max 0

/-- The rank of one node, beside the last rank given to a node without a level. -/
def baseRank (longest : List (String × Nat)) (st : List (String × Nat) × Nat) (nodeId : String) :
    List (String × Nat) × Nat :=
  match longest.lookup nodeId with
  | none => (Assoc.setKey nodeId (st.2 + 1) st.1, st.2 + 1)
  | some base => (Assoc.setKey nodeId base st.1, st.2)

/-- The ranks before tails are pulled down. A node without a level comes below all others. -/
def baseRanks (longest : List (String × Nat)) (orderedNodeIds : List String) :
    List (String × Nat) :=
  (orderedNodeIds.foldl (baseRank longest) ([], highest longest)).1

/-- The pull-down of tails. -/
def pullTails (tailDepths : List (String × Nat)) (maxRank : Nat) (orderedNodeIds : List String)
    (ranks : List (String × Nat)) : List (String × Nat) :=
  orderedNodeIds.foldl
    (fun ranks nodeId =>
      match tailDepths.lookup nodeId with
      | none => ranks
      | some depth =>
          Assoc.setKey nodeId (max ((ranks.lookup nodeId).getD 0) (maxRank - depth)) ranks)
    ranks

def isForward (edge : GraphEdge) : Bool :=
  !edge.isBackEdge

/-- `computeNodeRanks`. -/
def computeNodeRanks (snapshot : GraphSnapshot) (orderedNodeIds : List String)
    (edges : List GraphEdge) : List (String × Nat) :=
  let forwardEdges := edges.filter isForward
  let longest := computeLongestLevels snapshot.startAt orderedNodeIds forwardEdges
  let terminalNodeIds := orderedNodeIds.filter fun nodeId => edgeTargets forwardEdges nodeId = []
  let tailDepths := computeTailDepths orderedNodeIds forwardEdges terminalNodeIds
  let ranks := baseRanks longest orderedNodeIds
  pullTails tailDepths (highest ranks) orderedNodeIds ranks

/-! ## Cells -/

/-- `CellRef`. -/
structure CellRef where
  rank : Nat
  index : Nat

def cellsAt (ranks : List (List GraphCell)) (rank : Nat) : List GraphCell :=
  (ranks[rank]?).getD []

/-- `ranks[rank].push(cell)`. -/
def pushCell (ranks : List (List GraphCell)) (rank : Nat) (cell : GraphCell) :
    List (List GraphCell) :=
  ranks.modify rank (· ++ [cell])

/-- The cell of a node. -/
def placeNode (rankOfNode : List (String × Nat))
    (st : List (List GraphCell) × List (String × CellRef)) (nodeId : String) :
    List (List GraphCell) × List (String × CellRef) :=
  let rank := (rankOfNode.lookup nodeId).getD 0
  (pushCell st.1 rank (.node nodeId),
    Assoc.setKey nodeId ⟨rank, (cellsAt st.1 rank).length⟩ st.2)

/-- The label stands on the first segment. -/
def segmentLabel (edge : GraphEdge) (fromRank : Nat) (previous : CellRef) : Option String :=
  if previous.rank = fromRank then edge.label else none

/-- A segment to a new cell of the edge in this rank. -/
def passThrough (edge : GraphEdge) (fromRank : Nat)
    (st : List (List GraphCell) × List GraphSegment × CellRef) (rank : Nat) :
    List (List GraphCell) × List GraphSegment × CellRef :=
  let (ranks, segments, previous) := st
  let index := (cellsAt ranks rank).length
  (pushCell ranks rank (.virtual edge.edgeId),
    segments ++ [⟨edge.edgeId, previous.rank, previous.index, index,
      segmentLabel edge fromRank previous⟩],
    ⟨rank, index⟩)

/-- The segments of one edge. -/
def drawEdge (rankOfNode : List (String × Nat)) (cellRef : List (String × CellRef))
    (st : List (List GraphCell) × List GraphSegment) (edge : GraphEdge) :
    List (List GraphCell) × List GraphSegment :=
  if edge.isBackEdge then st
  else
    match rankOfNode.lookup edge.source, rankOfNode.lookup edge.target with
    | some fromRank, some toRank =>
        if toRank ≤ fromRank then st
        else
          let first := (cellRef.lookup edge.source).getD ⟨0, 0⟩
          let (ranks, segments, previous) :=
            (List.range' (fromRank + 1) (toRank - fromRank - 1)).foldl (passThrough edge fromRank)
              (st.1, st.2, first)
          let last := (cellRef.lookup edge.target).getD ⟨0, 0⟩
          (ranks, segments ++ [⟨edge.edgeId, previous.rank, previous.index, last.index,
            segmentLabel edge fromRank previous⟩])
    | _, _ => st

/-! ## The order within a rank -/

/-- `reindex`. -/
def reindex (rank : Nat) (order : List Nat) (st : List (List GraphCell) × List GraphSegment) :
    List (List GraphCell) × List GraphSegment :=
  (st.1.set rank (order.filterMap fun oldIndex => (cellsAt st.1 rank)[oldIndex]?),
    st.2.map fun segment =>
      { segment with
        fromCell :=
          if segment.rank = rank then order.idxOf segment.fromCell else segment.fromCell
        toCell := if segment.rank + 1 = rank then order.idxOf segment.toCell else segment.toCell })

inductive SweepDirection where
  | down
  | up

/-- The places of the cells that a cell is joined to, in the rank above or below. -/
def neighbors (segments : List GraphSegment) (rank : Nat) (direction : SweepDirection)
    (index : Nat) : List Nat :=
  match direction with
  | .down =>
      (segments.filter fun segment => segment.rank + 1 = rank ∧ segment.toCell = index).map
        GraphSegment.fromCell
  | .up =>
      (segments.filter fun segment => segment.rank = rank ∧ segment.fromCell = index).map
        GraphSegment.toCell

/-- The mean place, or `Number.MAX_SAFE_INTEGER`. -/
def barycenter (places : List Nat) : ℚ :=
  if places = [] then 9007199254740991 else (places.sum : ℚ) / places.length

/-- The order that `sortRank` gives a rank. -/
def rankOrder (segments : List GraphSegment) (rank : Nat) (direction : SweepDirection)
    (count : Nat) : List Nat :=
  (((List.range count).map fun index =>
      (index, barycenter (neighbors segments rank direction index))).insertionSort
    fun left right => left.2 < right.2 ∨ left.2 = right.2 ∧ left.1 ≤ right.1).map Prod.fst

/-- `sortRank`. -/
def sortRank (direction : SweepDirection) (st : List (List GraphCell) × List GraphSegment)
    (rank : Nat) : List (List GraphCell) × List GraphSegment :=
  let count := (cellsAt st.1 rank).length
  if count < 2 then st
  else
    let order := rankOrder st.2 rank direction count
    if order = List.range count then st else reindex rank order st

/-- One sweep down and one up. -/
def sweep (st : List (List GraphCell) × List GraphSegment) :
    List (List GraphCell) × List GraphSegment :=
  let swept := (List.range' 1 (st.1.length - 1)).foldl (sortRank .down) st
  (List.range (swept.1.length - 1)).reverse.foldl (sortRank .up) swept

/-- `orderRanksByBarycenter`. -/
def orderRanksByBarycenter (st : List (List GraphCell) × List GraphSegment) :
    List (List GraphCell) × List GraphSegment :=
  (List.range 4).foldl (fun st _ => sweep st) st

/-- `layoutGraph`. -/
def layoutGraph (snapshot : GraphSnapshot) : GraphLayout :=
  let expanded := expandEdges snapshot
  let orderedNodeIds := bfsOrder snapshot expanded
  let edges := markBackEdges expanded orderedNodeIds
  let rankOfNode := computeNodeRanks snapshot orderedNodeIds edges
  let rankCount := highest rankOfNode + 1
  let (ranks, cellRef) :=
    orderedNodeIds.foldl (placeNode rankOfNode) (List.replicate rankCount [], [])
  let (ranks, segments) := edges.foldl (drawEdge rankOfNode cellRef) (ranks, [])
  let (ranks, segments) := orderRanksByBarycenter (ranks, segments)
  ⟨ranks, edges, segments, rankOfNode⟩

end PiWorkflows
