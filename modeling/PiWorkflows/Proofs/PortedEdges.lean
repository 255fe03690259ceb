import PiWorkflows.Proofs.GraphOrder
import PiWorkflows.Proofs.ValueEquality
import PiWorkflows.Tui.Layout

/-!
# The terminal reads and orders a graph as the browser does

Canonical JSON lists the members of an object as a JavaScript object enumerates them,
so reading it back changes no order, and both sides lay the same snapshot out
(`parsed_canonical`, `decoded_canonical`). They expand its edges alike but for the
control characters of labels, come to its nodes in the same order and mark the same
edges, the terminal by their places and the browser as objects.
-/

namespace PiWorkflows

/-! ## The document -/

theorem mem_foldr_insertMember {α : Type} {members : List (String × α)}
    {e : CodeUnits × (String × α)}
    (h : e ∈ members.foldr (fun e sorted => Assoc.insertMember unitRank (units e.1) e sorted) []) :
    e.1 = units e.2.1 := by
  induction members with
  | nil => cases h
  | cons first rest ih =>
      rcases Assoc.mem_insertMember h with rfl | h
      · rfl
      · exact ih h

theorem sorted_foldr_insertMember {α : Type} (members : List (String × α)) :
    Assoc.Sorted unitRank
      (members.foldr (fun e sorted => Assoc.insertMember unitRank (units e.1) e sorted) []) := by
  induction members with
  | nil => exact List.Pairwise.nil
  | cons first rest ih => exact Assoc.sorted_insertMember unitRank_injective _ _ ih

/-- Canonical members are those of an object under its own names, which enumerates in order. -/
theorem canonicalMembers_spec {α : Type} (members : List (String × α)) :
    ∃ object : List (CodeUnits × (String × α)), canonicalMembers members = object.map Prod.snd ∧
      (object.map Prod.fst).Nodup ∧ enumerated object = object ∧
      (canonicalMembers members).map (fun e => (units e.1, e)) = object := by
  have hsorted := sorted_foldr_insertMember members
  have hnodup := Assoc.nodup_of_sorted hsorted
  have hperm := perm_fromEntries hsorted
  refine ⟨_, rfl, (hperm.map Prod.fst).nodup_iff.2 hnodup, ?_, ?_⟩
  · rw [fromEntries_of_nodup hnodup, enumerated_enumerated]
  · rw [canonicalMembers, List.map_map]
    refine (List.map_congr_left fun e he => ?_).trans (List.map_id _)
    exact Prod.ext (mem_foldr_insertMember (hperm.mem_iff.1 he)).symm rfl

theorem parsedMembers_canonical {α : Type} (members : List (String × α)) :
    parsedMembers (canonicalMembers members) = canonicalMembers members := by
  obtain ⟨object, hobject, hnodup, henum, hnames⟩ := canonicalMembers_spec members
  rw [parsedMembers, hnames, fromEntries_of_nodup hnodup, henum, hobject]

theorem decodedMembers_canonical {α : Type} (members : List (String × α)) :
    decodedMembers (canonicalMembers members) = canonicalMembers members := by
  obtain ⟨object, -, hnodup, -, hnames⟩ := canonicalMembers_spec members
  have hkeys : ((canonicalMembers members).map Prod.fst).Nodup := by
    rw [← hnames, List.map_map] at hnodup
    refine List.Nodup.of_map units ?_
    rw [List.map_map]
    exact hnodup
  rw [decodedMembers, Assoc.foldl_setKey (by simpa using hkeys), List.nil_append]

/-- Reading changes nothing where it changes none of the canonical objects. -/
theorem mapMembers_canonical {f : ∀ {α : Type}, List (String × α) → List (String × α)}
    (hf : ∀ {α : Type} (members : List (String × α)),
      f (canonicalMembers members) = canonicalMembers members) (snapshot : GraphSnapshot) :
    snapshot.canonical.mapMembers f = snapshot.canonical := by
  have hnodes : ∀ members : List (String × Unit),
      (members.map Prod.fst).map (fun nodeId => (nodeId, ())) = members := fun members => by
    rw [List.map_map]
    exact List.map_id _
  have hedges : ∀ edge : WorkflowEdge, (edge.mapCases canonicalMembers).mapCases f =
      edge.mapCases canonicalMembers := by
    intro edge
    cases edge with
    | plain => rfl
    | switch source on cases => exact congrArg (WorkflowEdge.switch source on) (hf cases)
  rw [GraphSnapshot.canonical, GraphSnapshot.mapMembers, GraphSnapshot.mapMembers]
  dsimp only
  rw [hnodes, hf, List.map_map]
  exact congrArg (GraphSnapshot.mk _ _) (List.map_congr_left fun edge _ => hedges edge)

theorem parsed_canonical (snapshot : GraphSnapshot) :
    snapshot.canonical.parsed = snapshot.canonical :=
  mapMembers_canonical parsedMembers_canonical snapshot

theorem decoded_canonical (snapshot : GraphSnapshot) :
    snapshot.canonical.decoded = snapshot.canonical :=
  mapMembers_canonical decodedMembers_canonical snapshot

/-! ## Labels -/

def GraphEdge.scrubbed (edge : GraphEdge) : GraphEdge :=
  { edge with label := edge.label.map Tui.sanitizeText }

def GraphSegment.scrubbed (segment : GraphSegment) : GraphSegment :=
  { segment with label := segment.label.map Tui.sanitizeText }

/-- A layout with its labels as the terminal shows them. -/
def GraphLayout.scrubbed (layout : GraphLayout) : GraphLayout :=
  { layout with
    edges := layout.edges.map GraphEdge.scrubbed
    segments := layout.segments.map GraphSegment.scrubbed }

theorem tui_expandEdges (snapshot : GraphSnapshot) :
    Tui.expandEdges snapshot = (expandEdges snapshot).map GraphEdge.scrubbed := by
  rw [Tui.expandEdges, expandEdges, List.map_flatMap]
  refine List.flatMap_congr fun e _ => ?_
  obtain ⟨edge, index⟩ := e
  cases edge with
  | plain => rfl
  | switch source on cases =>
      rw [Tui.expandEdge, expandEdge, List.map_map]
      rfl

theorem edgeTargets_scrubbed (edges : List GraphEdge) (nodeId : String) :
    edgeTargets (edges.map GraphEdge.scrubbed) nodeId = edgeTargets edges nodeId := by
  rw [edgeTargets, edgeTargets, List.filter_map, List.map_map]
  rfl

/-! ## The order of the nodes -/

theorem tui_bfsLoop (edges : List GraphEdge) (queue ordered : List String) :
    Tui.bfsLoop (edges.map GraphEdge.scrubbed) queue ordered ordered =
      (bfsLoop edges queue ordered, bfsLoop edges queue ordered) := by
  fun_induction bfsLoop edges queue ordered with
  | case1 ordered => rw [Tui.bfsLoop]
  | case2 ordered nodeId queue hseen ih => rw [Tui.bfsLoop, if_pos hseen, ih]
  | case3 ordered nodeId queue hnew ih =>
      rw [Tui.bfsLoop, if_neg hnew, edgeTargets_scrubbed, ih]

theorem tui_bfsOrder (snapshot : GraphSnapshot) (edges : List GraphEdge) :
    Tui.bfsOrder snapshot (edges.map GraphEdge.scrubbed) = bfsOrder snapshot edges := by
  have hstep : ∀ (ordered : List String) (nodeId : String),
      Tui.addUnvisited (ordered, ordered) nodeId =
      (fun ordered => (ordered, ordered))
        (if nodeId ∈ ordered then ordered else ordered ++ [nodeId]) := by
    intro ordered nodeId
    rw [Tui.addUnvisited]
    dsimp only
    split <;> rfl
  rw [Tui.bfsOrder, tui_bfsLoop]
  exact congrArg Prod.snd (List.foldl_hom (fun ordered : List String => (ordered, ordered)) hstep)

/-! ## Back edges -/

/-- Marks at the places of edges, and marks on edges that differ from each other. -/
theorem tui_markBackEdges {edges : List GraphEdge} (hnodup : edges.Nodup)
    (hforward : ∀ edge ∈ edges, edge.isBackEdge = false) (orderedNodeIds : List String) :
    Tui.markBackEdges (edges.map GraphEdge.scrubbed) orderedNodeIds =
      (markBackEdges edges orderedNodeIds).map GraphEdge.scrubbed := by
  have hplaces : (edges.map GraphEdge.scrubbed).zipIdx =
      edges.zipIdx.map fun e => (e.1.scrubbed, e.2) := List.zipIdx_map
  have hedges : edges = edges.zipIdx.map Prod.fst := (List.zipIdx_map_fst 0 edges).symm
  obtain ⟨found, hfound⟩ : ∃ found, DepthFirst.search (fun e : GraphEdge × Nat => e.1.source)
      (fun e => e.1.target) edges.zipIdx orderedNodeIds.length orderedNodeIds = found := ⟨_, rfl⟩
  have hsub := DepthFirst.marked_subset (fun e : GraphEdge × Nat => e.1.source)
    (fun e => e.1.target) edges.zipIdx orderedNodeIds.length orderedNodeIds
  rw [hfound] at hsub
  have hsearch : DepthFirst.search (fun e : GraphEdge × Nat => e.1.source) (fun e => e.1.target)
      (edges.map GraphEdge.scrubbed).zipIdx orderedNodeIds.length orderedNodeIds =
        found.mapEdges fun e => (e.1.scrubbed, e.2) := by
    rw [hplaces, DepthFirst.search_mapEdges]
    exact congrArg _ hfound
  have hsearch' : DepthFirst.search GraphEdge.source GraphEdge.target edges orderedNodeIds.length
      orderedNodeIds = found.mapEdges Prod.fst := by
    conv_lhs => rw [hedges]
    rw [DepthFirst.search_mapEdges]
    exact congrArg _ hfound
  rw [Tui.markBackEdges, markBackEdges, hsearch, hsearch']
  have hindex : ∀ e ∈ edges.zipIdx, ∀ e' ∈ edges.zipIdx, e.2 = e'.2 → e = e' := by
    intro e he e' he' heq
    have hget := List.mem_zipIdx_iff_getElem?.1 he
    have hget' := List.mem_zipIdx_iff_getElem?.1 he'
    rw [← heq, hget] at hget'
    exact Prod.ext (Option.some.inj hget') heq
  have hvalue : ∀ e ∈ edges.zipIdx, ∀ e' ∈ edges.zipIdx, e.1 = e'.1 → e = e' := by
    rw [hedges] at hnodup
    exact fun e he e' he' heq => List.inj_on_of_nodup_map hnodup he he' heq
  rw [hplaces, List.map_map]
  conv_rhs => rw [hedges]
  rw [List.map_map, List.map_map]
  refine List.map_congr_left fun e he => ?_
  have hplace : (e.1.scrubbed, e.2) ∈ (found.mapEdges fun e : GraphEdge × Nat =>
      (e.1.scrubbed, e.2)).marked ↔ e ∈ found.marked := by
    refine ⟨fun h => ?_, fun h => List.mem_map_of_mem h⟩
    obtain ⟨e', he', heq⟩ := List.mem_map.1 h
    exact hindex e' (hsub e' he') e he (Prod.mk.inj heq).2 ▸ he'
  have hedge : e.1 ∈ (found.mapEdges Prod.fst).marked ↔ e ∈ found.marked := by
    refine ⟨fun h => ?_, fun h => List.mem_map_of_mem h⟩
    obtain ⟨e', he', heq⟩ := List.mem_map.1 h
    exact hvalue e' (hsub e' he') e he heq ▸ he'
  have hunmarked := hforward e.1 (hedges ▸ List.mem_map_of_mem he)
  dsimp only [Function.comp]
  by_cases hmarked : e ∈ found.marked
  · rw [if_pos (hplace.2 hmarked), decide_eq_true (hedge.2 hmarked)]
    rfl
  · rw [if_neg fun h => hmarked (hplace.1 h), decide_eq_false fun h => hmarked (hedge.1 h),
      ← hunmarked]

end PiWorkflows
