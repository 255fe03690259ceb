import PiWorkflows.Proofs.GraphRanks
import PiWorkflows.Proofs.GraphCells

/-!
# A finished graph layout is sound

The sweeps put the cells of a rank in another order and rewrite the segments at both
of its gaps, so no cell is lost and every edge is drawn as before (`Reordered`). With
the marks, the ranks and the cells that went before, this gives what a viewer relies
on (`GraphLayout.Sound`).
-/

namespace PiWorkflows

open Relation

/-! ## Sorting the cells of a rank -/

theorem getElem?_filterMap_idxOf {α : Type} {f : Nat → Option α} {order : List Nat} {i : Nat}
    (hall : ∀ j ∈ order, (f j).isSome) (hi : i ∈ order) :
    (order.filterMap f)[order.idxOf i]? = f i := by
  induction order with
  | nil => cases hi
  | cons j order ih =>
      obtain ⟨cell, hcell⟩ := Option.isSome_iff_exists.1 (hall j List.mem_cons_self)
      rw [List.filterMap_cons_some hcell]
      by_cases heq : j = i
      · rw [← heq, List.idxOf_cons_self, List.getElem?_cons_zero, hcell]
      · rw [List.idxOf_cons_ne _ heq, List.getElem?_cons_succ]
        exact ih (fun k hk => hall k (List.mem_cons_of_mem _ hk))
          ((List.mem_cons.1 hi).resolve_left fun h => heq h.symm)

theorem filterMap_range_getElem? {α : Type} (row : List α) :
    (List.range row.length).filterMap (fun i => row[i]?) = row := by
  induction row using List.reverseRecOn with
  | nil => rfl
  | append_singleton row cell ih =>
      have hkeep : (List.range row.length).filterMap (fun i => (row ++ [cell])[i]?) =
          (List.range row.length).filterMap (fun i => row[i]?) :=
        List.filterMap_congr fun i hi => List.getElem?_append_left (List.mem_range.1 hi)
      rw [List.length_append, List.length_singleton, List.range_succ, List.filterMap_append, hkeep,
        ih]
      simp

/-- The same cells rank by rank in another order, and every edge drawn as it was. -/
structure Reordered (st st' : List (List GraphCell) × List GraphSegment) : Prop where
  length : st'.1.length = st.1.length
  perm : ∀ rank, (cellsAt st'.1 rank).Perm (cellsAt st.1 rank)
  drawn : ∀ edge fromRank toRank, Drawn st.1 st.2 edge fromRank toRank →
    Drawn st'.1 st'.2 edge fromRank toRank

theorem Reordered.refl (st : List (List GraphCell) × List GraphSegment) : Reordered st st :=
  ⟨rfl, fun _ => .refl _, fun _ _ _ h => h⟩

theorem Reordered.trans {a b c : List (List GraphCell) × List GraphSegment} (h : Reordered a b)
    (h' : Reordered b c) : Reordered a c where
  length := h'.length.trans h.length
  perm rank := (h'.perm rank).trans (h.perm rank)
  drawn edge fromRank toRank hdrawn :=
    h'.drawn edge fromRank toRank (h.drawn edge fromRank toRank hdrawn)

theorem reordered_foldl {α : Type} {f : List (List GraphCell) × List GraphSegment → α →
    List (List GraphCell) × List GraphSegment} (hstep : ∀ st x, Reordered st (f st x))
    (xs : List α) (st : List (List GraphCell) × List GraphSegment) :
    Reordered st (xs.foldl f st) := by
  induction xs generalizing st with
  | nil => exact .refl st
  | cons x xs ih => exact (hstep st x).trans (ih _)

theorem cellsAt_set {ranks : List (List GraphCell)} {rank : Nat} (h : rank < ranks.length)
    (row : List GraphCell) (other : Nat) :
    cellsAt (ranks.set rank row) other = if other = rank then row else cellsAt ranks other := by
  rw [cellsAt, List.getElem?_set]
  by_cases heq : other = rank
  · subst heq
    rw [if_pos rfl, if_pos h, if_pos rfl]
    rfl
  · rw [if_neg (Ne.symm heq), if_neg heq]
    rfl

theorem reordered_reindex {st : List (List GraphCell) × List GraphSegment} {rank : Nat}
    {order : List Nat} (hlt : rank < st.1.length)
    (hperm : order.Perm (List.range (cellsAt st.1 rank).length)) :
    Reordered st (reindex rank order st) := by
  have hmem : ∀ i, i ∈ order ↔ i < (cellsAt st.1 rank).length := fun i =>
    hperm.mem_iff.trans List.mem_range
  have hrow : ∀ i ∈ order, ((cellsAt st.1 rank)[i]?).isSome := fun i hi => by
    simpa using (hmem i).1 hi
  refine ⟨List.length_set, fun other => ?_, fun edge fromRank toRank hdrawn => ?_⟩
  · rw [reindex, cellsAt_set hlt]
    split
    · next heq =>
        have hcells := hperm.filterMap fun i => (cellsAt st.1 rank)[i]?
        rw [filterMap_range_getElem?] at hcells
        rw [heq]
        exact hcells
    · exact .refl _
  · obtain ⟨place, hsegments, hcells⟩ := hdrawn
    refine ⟨fun r => if r = rank then order.idxOf (place r) else place r, ?_, ?_⟩
    · -- The ranks of the segments stay, so the same segments are the edge's.
      have htriples := congrArg (List.map fun triple : Nat × Nat × Nat => (triple.1,
        if triple.1 = rank then order.idxOf triple.2.1 else triple.2.1,
        if triple.1 + 1 = rank then order.idxOf triple.2.2 else triple.2.2)) hsegments
      rw [List.map_map, List.map_map] at htriples
      rw [reindex, List.filter_map, List.map_map]
      exact htriples
    · intro r hlow hhigh
      have hcell := hcells r hlow hhigh
      rw [cellAt, reindex, cellsAt_set hlt]
      dsimp only
      by_cases heq : r = rank
      · rw [if_pos heq, if_pos heq, ← hcell, heq, cellAt]
        rw [heq, cellAt] at hcell
        obtain ⟨hindex, -⟩ := List.getElem?_eq_some_iff.1 hcell
        exact getElem?_filterMap_idxOf hrow ((hmem _).2 hindex)
      · rw [if_neg heq, if_neg heq]
        exact hcell

theorem rankOrder_perm (segments : List GraphSegment) (rank : Nat) (direction : SweepDirection)
    (count : Nat) : (rankOrder segments rank direction count).Perm (List.range count) := by
  have hsorted := (List.perm_insertionSort
    (fun left right : Nat × ℚ => left.2 < right.2 ∨ left.2 = right.2 ∧ left.1 ≤ right.1)
    ((List.range count).map fun index =>
      (index, barycenter (neighbors segments rank direction index)))).map Prod.fst
  rw [List.map_map] at hsorted
  rw [rankOrder]
  exact hsorted.trans (.of_eq (List.map_id'' (fun _ => rfl) _))

theorem reordered_sortRank (direction : SweepDirection)
    (st : List (List GraphCell) × List GraphSegment) (rank : Nat) :
    Reordered st (sortRank direction st rank) := by
  have hlt : ¬ (cellsAt st.1 rank).length < 2 → rank < st.1.length := by
    intro hcount
    by_contra hge
    rw [cellsAt, List.getElem?_eq_none (Nat.le_of_not_lt hge)] at hcount
    exact hcount Nat.two_pos
  rw [sortRank]
  dsimp only
  split
  · exact .refl st
  · next hcount =>
      split
      · exact .refl st
      · exact reordered_reindex (hlt hcount) (rankOrder_perm _ _ _ _)

theorem reordered_orderRanks (st : List (List GraphCell) × List GraphSegment) :
    Reordered st (orderRanksByBarycenter st) :=
  reordered_foldl (fun st _ => (reordered_foldl (reordered_sortRank .down) _ st).trans
    (reordered_foldl (reordered_sortRank .up) _ _)) _ st

/-! ## The ids of the edges -/

theorem graphEdgeId_inj {source source' target target' : String} {index index' branch branch' : Nat}
    (h : graphEdgeId source target index branch = graphEdgeId source' target' index' branch') :
    index = index' ∧ branch = branch' := by
  have hdigits : ∀ (sep : Char) (n : Nat), sep.isDigit = false → sep ∉ n.repr.toList.reverse := by
    intro sep n hsep hmem
    rw [List.mem_reverse, Nat.toList_repr] at hmem
    rw [Nat.isDigit_of_mem_toDigits (by decide) (by decide) hmem] at hsep
    cases hsep
  have hlist : ∀ (source target : String) (index branch : Nat),
      (graphEdgeId source target index branch).toList.reverse =
        branch.repr.toList.reverse ++ '.' :: (index.repr.toList.reverse ++
          '#' :: (source ++ "->" ++ target).toList.reverse) := by
    intro source target index branch
    simp [graphEdgeId, String.toList_append]
  have hreverse := congrArg (fun id : String => id.toList.reverse) h
  rw [hlist, hlist] at hreverse
  obtain ⟨hbranch, hrest⟩ := cut_inj (hdigits _ _ (by decide)) (hdigits _ _ (by decide)) hreverse
  obtain ⟨hindex, -⟩ := cut_inj (hdigits _ _ (by decide)) (hdigits _ _ (by decide)) hrest
  exact ⟨natRepr_inj (String.toList_inj.1 (List.reverse_inj.1 hindex)),
    natRepr_inj (String.toList_inj.1 (List.reverse_inj.1 hbranch))⟩

theorem expandEdge_nodup (edge : WorkflowEdge) (index : Nat) :
    ((expandEdge edge index).map GraphEdge.edgeId).Nodup := by
  cases edge with
  | plain source target => exact List.nodup_singleton _
  | switch source on cases =>
      rw [expandEdge, List.map_map]
      have hindices : (cases.zipIdx.map Prod.snd).Nodup := by
        rw [List.zipIdx_map_snd]
        exact List.nodup_range'
      refine List.Nodup.map_on ?_ hindices.of_map
      intro e he e' he' heq
      exact List.inj_on_of_nodup_map hindices he he' (graphEdgeId_inj heq).2

/-- No two edges of a layout have the same id. -/
theorem expandEdges_nodup (snapshot : GraphSnapshot) :
    ((expandEdges snapshot).map GraphEdge.edgeId).Nodup := by
  have hindices : (snapshot.edges.zipIdx.map Prod.snd).Nodup := by
    rw [List.zipIdx_map_snd]
    exact List.nodup_range'
  rw [expandEdges, List.map_flatMap, List.nodup_flatMap]
  refine ⟨fun e _ => expandEdge_nodup e.1 e.2, ?_⟩
  refine (List.pairwise_map.1 hindices).imp fun {e e'} hne edgeId hid hid' => ?_
  obtain ⟨expanded, hexpanded, rfl⟩ := List.mem_map.1 hid
  obtain ⟨expanded', hexpanded', heq⟩ := List.mem_map.1 hid'
  obtain ⟨-, -, -, branch, hbranch⟩ := mem_expandEdge hexpanded
  obtain ⟨-, -, -, branch', hbranch'⟩ := mem_expandEdge hexpanded'
  rw [hbranch, hbranch'] at heq
  exact hne (graphEdgeId_inj heq).1.symm

/-! ## The layout -/

/-- What a viewer relies on. -/
structure GraphLayout.Sound (snapshot : GraphSnapshot) (layout : GraphLayout) : Prop where
  edges : layout.edges.map (fun edge => { edge with isBackEdge := false }) = expandEdges snapshot
  ids : (layout.edges.map GraphEdge.edgeId).Nodup
  acyclic : ∀ nodeId, ¬ TransGen (fun a b => ∃ edge ∈ layout.edges,
    edge.isBackEdge = false ∧ edge.source = a ∧ edge.target = b) nodeId nodeId
  /-- A marked edge closes a cycle. -/
  closes : ∀ edge ∈ layout.edges, edge.isBackEdge = true → ReflTransGen
    (fun a b => ∃ e ∈ layout.edges, e.source = a ∧ e.target = b) edge.target edge.source
  ascends : ∀ edge ∈ layout.edges, edge.isBackEdge = false → ∃ fromRank toRank,
    layout.rankOfNode.lookup edge.source = some fromRank ∧
      layout.rankOfNode.lookup edge.target = some toRank ∧ fromRank < toRank
  /-- A node has one cell, in its rank. -/
  placed : ∀ nodeId ∈ snapshot.nodes, ∃ rank, layout.rankOfNode.lookup nodeId = some rank ∧
    ∀ other, (cellsAt layout.ranks other).count (.node nodeId) = if other = rank then 1 else 0
  drawn : ∀ edge ∈ layout.edges, edge.isBackEdge = false → ∀ fromRank toRank,
    layout.rankOfNode.lookup edge.source = some fromRank →
      layout.rankOfNode.lookup edge.target = some toRank →
        Drawn layout.ranks layout.segments edge fromRank toRank

theorem le_highest {ranks : List (String × Nat)} {nodeId : String} {rank : Nat}
    (h : ranks.lookup nodeId = some rank) : rank ≤ highest ranks := by
  have hfold : ∀ (xs : List Nat) (low : Nat),
      low ≤ xs.foldl max low ∧ ∀ x ∈ xs, x ≤ xs.foldl max low := by
    intro xs
    induction xs with
    | nil => exact fun low => ⟨le_rfl, fun x hx => absurd hx List.not_mem_nil⟩
    | cons y xs ih =>
        intro low
        obtain ⟨hlow, hmem⟩ := ih (max low y)
        refine ⟨(le_max_left _ _).trans hlow, List.forall_mem_cons.2 ⟨?_, hmem⟩⟩
        exact (le_max_right _ _).trans hlow
  exact (hfold _ 0).2 rank (List.mem_map.2 ⟨_, Assoc.mem_of_lookup h, rfl⟩)

theorem mem_markBackEdges {edges : List GraphEdge} {orderedNodeIds : List String} {edge : GraphEdge}
    (h : edge ∈ markBackEdges edges orderedNodeIds) :
    ∃ e ∈ edges, edge.source = e.source ∧ edge.target = e.target := by
  obtain ⟨e, he, rfl⟩ := List.mem_map.1 h
  exact ⟨e, he, rfl, rfl⟩

/-- Edges that agree with an order have no cycle. -/
theorem Marked.acyclic {snapshot : GraphSnapshot} {orderedNodeIds : List String}
    {edges : List GraphEdge} (h : Marked snapshot orderedNodeIds edges) (nodeId : String) :
    ¬ TransGen (fun a b => ∃ edge ∈ edges,
      edge.isBackEdge = false ∧ edge.source = a ∧ edge.target = b) nodeId nodeId := by
  obtain ⟨order, hnodup, -, hedges⟩ := h.order
  refine DepthFirst.acyclic_of_order hnodup ?_ nodeId
  rintro _ _ ⟨edge, hedge, hforward, rfl, rfl⟩
  exact hedges edge hedge hforward

/-- Marking changes nothing but the marks. -/
theorem map_markBackEdges (snapshot : GraphSnapshot) (orderedNodeIds : List String) :
    (markBackEdges (expandEdges snapshot) orderedNodeIds).map
      (fun edge => { edge with isBackEdge := false }) = expandEdges snapshot := by
  rw [markBackEdges, List.map_map]
  refine (List.map_congr_left fun edge hedge => ?_).trans (List.map_id _)
  have hforward := expandEdges_forward hedge
  cases edge with
  | mk edgeId source target label isBackEdge =>
      subst hforward
      rfl

/-- The layout of marked edges. -/
theorem Marked.sound {snapshot : GraphSnapshot} {orderedNodeIds : List String}
    {edges : List GraphEdge} (h : Marked snapshot orderedNodeIds edges)
    (hedges : edges.map (fun edge => { edge with isBackEdge := false }) = expandEdges snapshot)
    (hnodup : orderedNodeIds.Nodup) (hall : ∀ nodeId ∈ snapshot.nodes, nodeId ∈ orderedNodeIds)
    (hends : ∀ edge ∈ edges, edge.source ∈ orderedNodeIds ∧ edge.target ∈ orderedNodeIds)
    {rankOfNode : List (String × Nat)}
    (hcompute : computeNodeRanks snapshot orderedNodeIds edges = rankOfNode)
    {placed : List (List GraphCell) × List (String × CellRef)}
    (hplace : orderedNodeIds.foldl (placeNode rankOfNode)
      (List.replicate (highest rankOfNode + 1) [], []) = placed)
    {drawn : List (List GraphCell) × List GraphSegment}
    (hdraw : edges.foldl (drawEdge rankOfNode placed.2) (placed.1, []) = drawn)
    {sorted : List (List GraphCell) × List GraphSegment}
    (hsort : orderRanksByBarycenter drawn = sorted) :
    GraphLayout.Sound snapshot ⟨sorted.1, edges, sorted.2, rankOfNode⟩ := by
  obtain ⟨hranked, hascends⟩ := nodeRanks_spec h hnodup hends
  rw [hcompute] at hranked hascends
  have hids : (edges.map GraphEdge.edgeId).Nodup := by
    have hexpanded := expandEdges_nodup snapshot
    rw [← hedges, List.map_map] at hexpanded
    exact hexpanded
  have hranks : ∀ nodeId ∈ orderedNodeIds, ∃ rank,
      rankOfNode.lookup nodeId = some rank ∧ rank < highest rankOfNode + 1 := by
    intro nodeId hnode
    obtain ⟨rank, hrank⟩ := hranked nodeId hnode
    exact ⟨rank, hrank, Nat.lt_succ_of_le (le_highest hrank)⟩
  obtain ⟨hplaced, hlength⟩ := foldl_placeNode_spec hnodup hranks
  rw [hplace] at hplaced hlength
  have hdown : ∀ edge ∈ edges, LeadsDown rankOfNode placed.1.length edge := by
    intro edge hedge hforward
    obtain ⟨fromRank, toRank, hfrom, hto, hlt⟩ := hascends edge hedge hforward
    exact ⟨fromRank, toRank, hfrom, hto, hlt, hlength ▸ Nat.lt_succ_of_le (le_highest hto)⟩
  have hdrawn := foldl_drawEdge_spec hplaced hids hends hdown
  rw [hdraw] at hdrawn
  have hsorted := reordered_orderRanks drawn
  rw [hsort] at hsorted
  have hcells : ∀ nodeId ∈ snapshot.nodes, ∃ rank, rankOfNode.lookup nodeId = some rank ∧
      ∀ other, (cellsAt sorted.1 other).count (.node nodeId) =
        if other = rank then 1 else 0 := by
    intro nodeId hnode
    obtain ⟨rank, hrank⟩ := hranked nodeId (hall nodeId hnode)
    refine ⟨rank, hrank, fun other => ?_⟩
    have hiff : nodeId ∈ orderedNodeIds ∧ rankOfNode.lookup nodeId = some other ↔ other = rank := by
      rw [hrank, Option.some.injEq]
      exact ⟨fun hboth => hboth.2.symm, fun heq => ⟨hall nodeId hnode, heq.symm⟩⟩
    rw [(hsorted.perm other).count_eq, hdrawn.extended.count, hplaced.count nodeId other]
    exact if_congr hiff rfl rfl
  exact ⟨hedges, hids, h.acyclic, h.closes, hascends, hcells,
    fun edge hedge hforward fromRank toRank hfrom hto =>
      hsorted.drawn edge fromRank toRank
        (hdrawn.drawn edge hedge hforward fromRank toRank hfrom hto)⟩

/-- A layout of a connected graph is sound. -/
theorem layoutGraph_sound {snapshot : GraphSnapshot} (h : snapshot.Connected) :
    (layoutGraph snapshot).Sound snapshot := by
  obtain ⟨rest, horder, hnodup, hall, -⟩ := bfsOrder_spec snapshot (expandEdges snapshot)
  have hmarked := markBackEdges_spec h
  have hedges := map_markBackEdges snapshot (bfsOrder snapshot (expandEdges snapshot))
  have hends : ∀ edge ∈ markBackEdges (expandEdges snapshot)
      (bfsOrder snapshot (expandEdges snapshot)),
      edge.source ∈ bfsOrder snapshot (expandEdges snapshot) ∧
        edge.target ∈ bfsOrder snapshot (expandEdges snapshot) := by
    intro edge hedge
    obtain ⟨e, he, hsource, htarget⟩ := mem_markBackEdges hedge
    obtain ⟨authored, hauthored, heq, htargets⟩ := mem_expandEdges he
    rw [horder, hsource, htarget, heq]
    exact ⟨hall _ (h.sources authored hauthored), hall _ (h.targets authored hauthored _ htargets)⟩
  rw [← horder] at hnodup hall
  rw [layoutGraph]
  generalize bfsOrder snapshot (expandEdges snapshot) = orderedNodeIds at *
  generalize markBackEdges (expandEdges snapshot) orderedNodeIds = edges at *
  generalize hcompute : computeNodeRanks snapshot orderedNodeIds edges = rankOfNode
  dsimp only
  generalize hplace : orderedNodeIds.foldl (placeNode rankOfNode)
    (List.replicate (highest rankOfNode + 1) [], []) = placed
  generalize hdraw : edges.foldl (drawEdge rankOfNode placed.2) (placed.1, []) = drawn
  generalize hsort : orderRanksByBarycenter drawn = sorted
  exact hmarked.sound hedges hnodup hall hends hcompute hplace hdraw hsort

/-- A review that sends the work back, and may do so in two cases. -/
def reviewLoop : GraphSnapshot where
  startAt := "draft"
  nodes := ["draft", "review", "done"]
  edges := [.plain "draft" "review",
    .switch "review" "$.verdict" [("redo", "draft"), ("polish", "draft"), ("accept", "done")]]

theorem reviewLoop_sound : (layoutGraph reviewLoop).Sound reviewLoop := by
  have hreview : reviewLoop.Leads "draft" "review" :=
    ⟨_, List.mem_cons_self, rfl, List.mem_cons_self⟩
  have hdone : reviewLoop.Leads "review" "done" :=
    ⟨_, List.mem_cons_of_mem _ List.mem_cons_self, rfl, by decide⟩
  refine layoutGraph_sound ⟨by decide, by decide, ?_⟩
  intro nodeId hnode
  rcases List.mem_cons.1 hnode with rfl | hnode
  · exact .refl
  · rcases List.mem_cons.1 hnode with rfl | hnode
    · exact .single hreview
    · rw [List.mem_singleton.1 hnode]
      exact .tail (.single hreview) hdone

end PiWorkflows
