import PiWorkflows.Render.Graph

/-!
# The cells and segments of a graph

Cells are only ever put at the end of their rank, so what refers to a cell keeps
referring to it while the layout is built. Each node gets one cell. Each edge that is
drawn gets a cell in every rank between its ends, and a segment for every gap that
joins the cells above and below it (`Drawn`).
-/

namespace PiWorkflows

def cellAt (ranks : List (List GraphCell)) (rank index : Nat) : Option GraphCell :=
  (cellsAt ranks rank)[index]?

/-- The cell that an edge has in a rank between its ends. -/
def edgeCell (edge : GraphEdge) (fromRank toRank rank : Nat) : GraphCell :=
  if rank = fromRank then .node edge.source
  else if rank = toRank then .node edge.target
  else .virtual edge.edgeId

def segmentPlaces (segment : GraphSegment) : Nat × Nat × Nat :=
  (segment.rank, segment.fromCell, segment.toCell)

/-- The edge has one segment for each gap between its ranks, from its cell in the rank above the
gap to its cell in the rank below. -/
def Drawn (ranks : List (List GraphCell)) (segments : List GraphSegment) (edge : GraphEdge)
    (fromRank toRank : Nat) : Prop :=
  ∃ place : Nat → Nat,
    (segments.filter fun segment => segment.edgeId = edge.edgeId).map segmentPlaces =
      (List.range' fromRank (toRank - fromRank)).map (fun rank =>
        (rank, place rank, place (rank + 1))) ∧
    ∀ rank, fromRank ≤ rank → rank ≤ toRank →
      cellAt ranks rank (place rank) = some (edgeCell edge fromRank toRank rank)

/-! ## Pushing -/

theorem cellsAt_pushCell {ranks : List (List GraphCell)} {rank : Nat} (h : rank < ranks.length)
    (cell : GraphCell) (other : Nat) :
    cellsAt (pushCell ranks rank cell) other =
      if other = rank then cellsAt ranks rank ++ [cell] else cellsAt ranks other := by
  by_cases heq : other = rank
  · subst heq
    simp [cellsAt, pushCell, List.getElem?_eq_getElem h]
  · simp [cellsAt, pushCell, heq, Ne.symm heq]

/-- A cell stays in its place. -/
theorem cellAt_pushCell_of_some {ranks : List (List GraphCell)} {rank other index : Nat}
    (h : rank < ranks.length) (cell : GraphCell) {known : GraphCell}
    (hknown : cellAt ranks other index = some known) :
    cellAt (pushCell ranks rank cell) other index = some known := by
  rw [cellAt] at hknown ⊢
  rw [cellsAt_pushCell h]
  split
  · next heq =>
      subst heq
      obtain ⟨hindex, -⟩ := List.getElem?_eq_some_iff.1 hknown
      rw [List.getElem?_append_left hindex, hknown]
  · exact hknown

theorem cellAt_pushCell_self {ranks : List (List GraphCell)} {rank : Nat} (h : rank < ranks.length)
    (cell : GraphCell) :
    cellAt (pushCell ranks rank cell) rank (cellsAt ranks rank).length = some cell := by
  rw [cellAt, cellsAt_pushCell h, if_pos rfl, List.getElem?_concat_length]

theorem length_pushCell (ranks : List (List GraphCell)) (rank : Nat) (cell : GraphCell) :
    (pushCell ranks rank cell).length = ranks.length :=
  List.length_modify _ _ _

/-- Only cells of edges are put behind what was there. -/
structure Grown (ranks ranks' : List (List GraphCell)) : Prop where
  length : ranks'.length = ranks.length
  cells : ∀ rank, ∃ edgeIds : List String,
    cellsAt ranks' rank = cellsAt ranks rank ++ edgeIds.map .virtual

theorem Grown.refl (ranks : List (List GraphCell)) : Grown ranks ranks :=
  ⟨rfl, fun _ => ⟨[], (List.append_nil _).symm⟩⟩

theorem Grown.trans {a b c : List (List GraphCell)} (h : Grown a b) (h' : Grown b c) :
    Grown a c := by
  refine ⟨h'.length.trans h.length, fun rank => ?_⟩
  obtain ⟨first, hfirst⟩ := h.cells rank
  obtain ⟨second, hsecond⟩ := h'.cells rank
  exact ⟨first ++ second, by rw [hsecond, hfirst, List.append_assoc, List.map_append]⟩

theorem grown_pushCell {ranks : List (List GraphCell)} {rank : Nat} (h : rank < ranks.length)
    (edgeId : String) : Grown ranks (pushCell ranks rank (.virtual edgeId)) := by
  refine ⟨length_pushCell ranks rank _, fun other => ?_⟩
  rw [cellsAt_pushCell h]
  split
  · next heq => exact ⟨[edgeId], by rw [heq]; rfl⟩
  · exact ⟨[], (List.append_nil _).symm⟩

theorem Grown.cellAt {ranks ranks' : List (List GraphCell)} (h : Grown ranks ranks')
    {rank index : Nat} {cell : GraphCell} (hcell : cellAt ranks rank index = some cell) :
    cellAt ranks' rank index = some cell := by
  obtain ⟨edgeIds, hcells⟩ := h.cells rank
  rw [PiWorkflows.cellAt] at hcell ⊢
  rw [hcells]
  obtain ⟨hindex, -⟩ := List.getElem?_eq_some_iff.1 hcell
  rw [List.getElem?_append_left hindex, hcell]

theorem Grown.count {ranks ranks' : List (List GraphCell)} (h : Grown ranks ranks')
    (rank : Nat) (nodeId : String) :
    (cellsAt ranks' rank).count (.node nodeId) = (cellsAt ranks rank).count (.node nodeId) := by
  obtain ⟨edgeIds, hcells⟩ := h.cells rank
  have hnone : (edgeIds.map GraphCell.virtual).count (.node nodeId) = 0 := by
    rw [List.count_eq_zero, List.mem_map]
    rintro ⟨edgeId, -, heq⟩
    cases heq
  rw [hcells, List.count_append, hnone, Nat.add_zero]

/-! ## Nodes -/

/-- The nodes have their cells, one each, and the references lead to them. -/
structure Placed (rankOfNode : List (String × Nat)) (nodeIds : List String)
    (ranks : List (List GraphCell)) (cellRef : List (String × CellRef)) : Prop where
  refs : ∀ nodeId ∈ nodeIds, ∃ ref : CellRef, cellRef.lookup nodeId = some ref ∧
    rankOfNode.lookup nodeId = some ref.rank ∧ cellAt ranks ref.rank ref.index = some (.node nodeId)
  count : ∀ nodeId rank, (cellsAt ranks rank).count (.node nodeId) =
    if nodeId ∈ nodeIds ∧ rankOfNode.lookup nodeId = some rank then 1 else 0

theorem Placed.step {rankOfNode : List (String × Nat)} {nodeIds : List String}
    {st : List (List GraphCell) × List (String × CellRef)}
    (h : Placed rankOfNode nodeIds st.1 st.2) {nodeId : String} {rank : Nat}
    (hnew : nodeId ∉ nodeIds) (hrank : rankOfNode.lookup nodeId = some rank)
    (hlt : rank < st.1.length) :
    Placed rankOfNode (nodeIds ++ [nodeId]) (placeNode rankOfNode st nodeId).1
      (placeNode rankOfNode st nodeId).2 := by
  have hplace : placeNode rankOfNode st nodeId = (pushCell st.1 rank (.node nodeId),
      Assoc.setKey nodeId ⟨rank, (cellsAt st.1 rank).length⟩ st.2) := by
    rw [placeNode, hrank]
    rfl
  rw [hplace]
  refine ⟨fun other hother => ?_, fun other otherRank => ?_⟩
  · rcases List.mem_append.1 hother with hother | hother
    · obtain ⟨ref, hlookup, href, hcell⟩ := h.refs other hother
      have hne : other ≠ nodeId := fun heq => hnew (heq ▸ hother)
      refine ⟨ref, ?_, href, cellAt_pushCell_of_some hlt _ hcell⟩
      rw [Assoc.lookup_setKey, if_neg hne, hlookup]
    · rw [List.mem_singleton] at hother
      subst hother
      exact ⟨_, by rw [Assoc.lookup_setKey, if_pos rfl], hrank, cellAt_pushCell_self hlt _⟩
  · have hcount := h.count other otherRank
    rw [cellsAt_pushCell hlt]
    by_cases hsame : other = nodeId
    · subst hsame
      rw [if_neg fun hmem => hnew hmem.1] at hcount
      split
      · next heq =>
          subst heq
          rw [List.count_append, hcount, if_pos ⟨by simp, hrank⟩]
          simp
      · next hne =>
          rw [hcount, if_neg]
          rintro ⟨-, hlookup⟩
          exact hne (Option.some.inj (hlookup.symm.trans hrank))
    · have hmem : other ∈ nodeIds ++ [nodeId] ↔ other ∈ nodeIds := by simp [hsame]
      simp only [hmem]
      rw [← hcount]
      split
      · next heq =>
          subst heq
          rw [List.count_append, Nat.add_eq_left, List.count_eq_zero, List.mem_singleton]
          exact fun heq => hsame (GraphCell.node.inj heq)
      · rfl

theorem foldl_placeNode_spec {rankOfNode : List (String × Nat)} {rankCount : Nat}
    {nodeIds : List String} (hnodup : nodeIds.Nodup)
    (hranks : ∀ nodeId ∈ nodeIds, ∃ rank, rankOfNode.lookup nodeId = some rank ∧ rank < rankCount) :
    let placed := nodeIds.foldl (placeNode rankOfNode) (List.replicate rankCount [], [])
    Placed rankOfNode nodeIds placed.1 placed.2 ∧ placed.1.length = rankCount := by
  have hfold : ∀ (rest done : List String) (st : List (List GraphCell) × List (String × CellRef)),
      (done ++ rest).Nodup → (∀ nodeId ∈ rest, ∃ rank,
        rankOfNode.lookup nodeId = some rank ∧ rank < rankCount) →
      Placed rankOfNode done st.1 st.2 → st.1.length = rankCount →
      Placed rankOfNode (done ++ rest) (rest.foldl (placeNode rankOfNode) st).1
          (rest.foldl (placeNode rankOfNode) st).2 ∧
        (rest.foldl (placeNode rankOfNode) st).1.length = rankCount := by
    intro rest
    induction rest with
    | nil =>
        intro done st _ _ hplaced hlength
        rw [List.append_nil]
        exact ⟨hplaced, hlength⟩
    | cons nodeId rest ih =>
        intro done st hnodup hranks hplaced hlength
        obtain ⟨rank, hrank, hlt⟩ := hranks nodeId List.mem_cons_self
        have hnew : nodeId ∉ done := fun hmem =>
          (List.nodup_append.1 hnodup).2.2 nodeId hmem nodeId List.mem_cons_self rfl
        have hsplit : done ++ nodeId :: rest = done ++ [nodeId] ++ rest := by simp
        rw [hsplit] at hnodup ⊢
        rw [List.foldl_cons]
        refine ih _ _ hnodup (fun x hx => hranks x (List.mem_cons_of_mem _ hx))
          (hplaced.step hnew hrank (hlength ▸ hlt)) ?_
        rw [placeNode, length_pushCell, hlength]
  have hempty : ∀ rank, cellsAt (List.replicate rankCount []) rank = [] := by
    intro rank
    rw [cellsAt, List.getElem?_replicate]
    split <;> rfl
  refine hfold nodeIds [] _ hnodup hranks ⟨by simp, fun nodeId rank => ?_⟩ (by simp)
  rw [hempty]
  simp

/-! ## Segments -/

/-- The way of an edge through so many ranks. -/
theorem foldl_passThrough_spec (edge : GraphEdge) (fromRank index : Nat)
    (ranks : List (List GraphCell)) (segments : List GraphSegment) (count : Nat)
    (hlength : fromRank + count < ranks.length) :
    ∃ (place : Nat → Nat) (ranks' : List (List GraphCell)) (new : List GraphSegment),
      (List.range' (fromRank + 1) count).foldl (passThrough edge fromRank)
          (ranks, segments, ⟨fromRank, index⟩) =
        (ranks', segments ++ new, ⟨fromRank + count, place (fromRank + count)⟩) ∧
      Grown ranks ranks' ∧ place fromRank = index ∧
      (∀ segment ∈ new, segment.edgeId = edge.edgeId) ∧
      new.map segmentPlaces =
        (List.range' fromRank count).map (fun rank => (rank, place rank, place (rank + 1))) ∧
      ∀ rank, fromRank < rank → rank ≤ fromRank + count →
        cellAt ranks' rank (place rank) = some (.virtual edge.edgeId) := by
  induction count with
  | zero =>
      exact ⟨fun _ => index, ranks, [], by simp, .refl ranks, rfl, by simp, by simp,
        fun rank hlow hhigh => by omega⟩
  | succ count ih =>
      obtain ⟨place, ranks', new, hfold, hext, hfirst, hids, hplaces, hcells⟩ := ih (by omega)
      have hlt : fromRank + count + 1 < ranks'.length := by
        rw [hext.length]
        omega
      have hkeep : ∀ rank, rank ≤ fromRank + count →
          Function.update place (fromRank + count + 1)
            (cellsAt ranks' (fromRank + count + 1)).length rank = place rank := fun rank hrank =>
        Function.update_of_ne (by omega) _ _
      refine ⟨Function.update place (fromRank + count + 1)
          (cellsAt ranks' (fromRank + count + 1)).length,
        pushCell ranks' (fromRank + count + 1) (.virtual edge.edgeId),
        new ++ [⟨edge.edgeId, fromRank + count, place (fromRank + count),
          (cellsAt ranks' (fromRank + count + 1)).length,
          segmentLabel edge fromRank ⟨fromRank + count, place (fromRank + count)⟩⟩],
        ?_, hext.trans (grown_pushCell hlt _), ?_, ?_, ?_, ?_⟩
      · have hrange : List.range' (fromRank + 1) (count + 1) =
            List.range' (fromRank + 1) count ++ [fromRank + count + 1] := by
          rw [List.range'_concat]
          congr 2
          omega
        rw [hrange, List.foldl_append, hfold, List.foldl_cons, List.foldl_nil, passThrough]
        simp only [List.append_assoc, Function.update_self, Nat.add_assoc]
      · rw [hkeep fromRank (by omega), hfirst]
      · intro segment hsegment
        rcases List.mem_append.1 hsegment with hsegment | hsegment
        · exact hids segment hsegment
        · rw [List.mem_singleton.1 hsegment]
      · have hrange : List.range' fromRank (count + 1) =
            List.range' fromRank count ++ [fromRank + count] := by
          rw [List.range'_concat]
          congr 2
          omega
        rw [hrange, List.map_append, List.map_append, hplaces]
        congr 1
        · refine List.map_congr_left fun rank hrank => ?_
          have hbound := List.mem_range'_1.1 hrank
          rw [hkeep rank (by omega), hkeep (rank + 1) (by omega)]
        · rw [List.map_singleton, List.map_singleton, hkeep _ le_rfl, Function.update_self]
          rfl
      · intro rank hlow hhigh
        by_cases hlast : rank = fromRank + count + 1
        · subst hlast
          rw [Function.update_self]
          exact cellAt_pushCell_self hlt _
        · rw [hkeep rank (by omega)]
          exact cellAt_pushCell_of_some hlt _ (hcells rank hlow (by omega))

/-- What one edge adds. -/
theorem drawEdge_spec {rankOfNode : List (String × Nat)} {cellRef : List (String × CellRef)}
    {st : List (List GraphCell) × List GraphSegment} {edge : GraphEdge} {fromRank toRank : Nat}
    {first last : CellRef} (hforward : edge.isBackEdge = false)
    (hfrom : rankOfNode.lookup edge.source = some fromRank)
    (hto : rankOfNode.lookup edge.target = some toRank) (hlt : fromRank < toRank)
    (hlength : toRank < st.1.length)
    (hfirst : cellRef.lookup edge.source = some first) (hfirstRank : first.rank = fromRank)
    (hlast : cellRef.lookup edge.target = some last)
    (hfirstCell : cellAt st.1 fromRank first.index = some (.node edge.source))
    (hlastCell : cellAt st.1 toRank last.index = some (.node edge.target))
    (hnew : ∀ segment ∈ st.2, segment.edgeId ≠ edge.edgeId) :
    ∃ new, (drawEdge rankOfNode cellRef st edge).2 = st.2 ++ new ∧
      (∀ segment ∈ new, segment.edgeId = edge.edgeId) ∧
      Grown st.1 (drawEdge rankOfNode cellRef st edge).1 ∧
      Drawn (drawEdge rankOfNode cellRef st edge).1 (drawEdge rankOfNode cellRef st edge).2 edge
        fromRank toRank := by
  obtain ⟨count, rfl⟩ : ∃ count, toRank = fromRank + count + 1 :=
    ⟨toRank - fromRank - 1, by omega⟩
  obtain ⟨place, ranks', new, hfold, hext, hplace, hids, hplaces, hcells⟩ :=
    foldl_passThrough_spec edge fromRank first.index st.1 st.2 count (by omega)
  have hstart : first = ⟨fromRank, first.index⟩ := by
    rw [← hfirstRank]
  have hcount : fromRank + count + 1 - fromRank - 1 = count := by omega
  have hdraw : drawEdge rankOfNode cellRef st edge = (ranks', st.2 ++ (new ++
      [⟨edge.edgeId, fromRank + count, place (fromRank + count), last.index,
        segmentLabel edge fromRank ⟨fromRank + count, place (fromRank + count)⟩⟩])) := by
    rw [drawEdge, if_neg (by simp [hforward])]
    simp only [hfrom, hto]
    rw [if_neg (by omega), hfirst, hlast, hcount, Option.getD_some, Option.getD_some, hstart, hfold,
      List.append_assoc]
  have hkeep : ∀ rank, rank ≤ fromRank + count →
      Function.update place (fromRank + count + 1) last.index rank = place rank :=
    fun rank hrank => Function.update_of_ne (by omega) _ _
  have hown : ∀ segment ∈ new ++ [⟨edge.edgeId, fromRank + count, place (fromRank + count),
      last.index, segmentLabel edge fromRank ⟨fromRank + count, place (fromRank + count)⟩⟩],
      segment.edgeId = edge.edgeId := by
    intro segment hsegment
    rcases List.mem_append.1 hsegment with hsegment | hsegment
    · exact hids segment hsegment
    · rw [List.mem_singleton.1 hsegment]
  rw [hdraw]
  refine ⟨_, rfl, hown, hext, Function.update place (fromRank + count + 1) last.index, ?_, ?_⟩
  · have hnone : st.2.filter (fun segment => segment.edgeId = edge.edgeId) = [] :=
      List.filter_eq_nil_iff.2 fun segment hsegment => by simpa using hnew segment hsegment
    have hrange : List.range' fromRank (fromRank + count + 1 - fromRank) =
        List.range' fromRank count ++ [fromRank + count] := by
      have hone : fromRank + count + 1 - fromRank = count + 1 := by omega
      rw [hone, List.range'_concat]
      congr 2
      omega
    rw [List.filter_append, hnone, List.nil_append,
      List.filter_eq_self.2 fun segment hsegment => by simpa using hown segment hsegment, hrange,
      List.map_append, List.map_append, hplaces]
    congr 1
    · refine List.map_congr_left fun rank hrank => ?_
      have hbound := List.mem_range'_1.1 hrank
      rw [hkeep rank (by omega), hkeep (rank + 1) (by omega)]
    · rw [List.map_singleton, List.map_singleton, hkeep _ le_rfl, Function.update_self]
      rfl
  · intro rank hlow hhigh
    by_cases hend : rank = fromRank + count + 1
    · subst hend
      rw [Function.update_self, edgeCell, if_neg (by omega), if_pos rfl]
      exact hext.cellAt hlastCell
    · rw [hkeep rank (by omega), edgeCell]
      by_cases hbegin : rank = fromRank
      · rw [if_pos hbegin, hbegin, hplace]
        exact hext.cellAt hfirstCell
      · rw [if_neg hbegin, if_neg hend]
        exact hcells rank (by omega) (by omega)

/-- An edge stays drawn when cells are put behind others and other edges get segments. -/
theorem Drawn.mono {ranks ranks' : List (List GraphCell)} {segments new : List GraphSegment}
    {edge : GraphEdge} {fromRank toRank : Nat} (h : Drawn ranks segments edge fromRank toRank)
    (hext : Grown ranks ranks') (hnew : ∀ segment ∈ new, segment.edgeId ≠ edge.edgeId) :
    Drawn ranks' (segments ++ new) edge fromRank toRank := by
  obtain ⟨place, hsegments, hcells⟩ := h
  refine ⟨place, ?_, fun rank hlow hhigh => hext.cellAt (hcells rank hlow hhigh)⟩
  have hnone : new.filter (fun segment => segment.edgeId = edge.edgeId) = [] :=
    List.filter_eq_nil_iff.2 fun segment hsegment => by simpa using hnew segment hsegment
  rw [List.filter_append, hnone, List.append_nil, hsegments]

/-- The edges drawn so far. -/
structure DrawnAll (rankOfNode : List (String × Nat)) (ranks : List (List GraphCell))
    (edges : List GraphEdge) (st : List (List GraphCell) × List GraphSegment) : Prop where
  extended : Grown ranks st.1
  ids : ∀ segment ∈ st.2, segment.edgeId ∈ edges.map GraphEdge.edgeId
  drawn : ∀ edge ∈ edges, edge.isBackEdge = false → ∀ fromRank toRank,
    rankOfNode.lookup edge.source = some fromRank → rankOfNode.lookup edge.target = some toRank →
    Drawn st.1 st.2 edge fromRank toRank

/-- The ranks of an edge that is not set apart. -/
def LeadsDown (rankOfNode : List (String × Nat)) (rankCount : Nat) (edge : GraphEdge) : Prop :=
  edge.isBackEdge = false → ∃ fromRank toRank, rankOfNode.lookup edge.source = some fromRank ∧
    rankOfNode.lookup edge.target = some toRank ∧ fromRank < toRank ∧ toRank < rankCount

theorem DrawnAll.step {rankOfNode : List (String × Nat)} {nodeIds : List String}
    {ranks : List (List GraphCell)} {cellRef : List (String × CellRef)} {edges : List GraphEdge}
    {st : List (List GraphCell) × List GraphSegment} {edge : GraphEdge}
    (h : DrawnAll rankOfNode ranks edges st) (hplaced : Placed rankOfNode nodeIds ranks cellRef)
    (hnew : edge.edgeId ∉ edges.map GraphEdge.edgeId) (hsource : edge.source ∈ nodeIds)
    (htarget : edge.target ∈ nodeIds) (hdown : LeadsDown rankOfNode ranks.length edge) :
    DrawnAll rankOfNode ranks (edges ++ [edge]) (drawEdge rankOfNode cellRef st edge) := by
  have hids : ∀ segment ∈ st.2, segment.edgeId ∈ (edges ++ [edge]).map GraphEdge.edgeId := by
    intro segment hsegment
    rw [List.map_append]
    exact List.mem_append_left _ (h.ids segment hsegment)
  cases hback : edge.isBackEdge with
  | true =>
      rw [drawEdge, if_pos hback]
      refine ⟨h.extended, hids, fun other hother hforward => ?_⟩
      rcases List.mem_append.1 hother with hother | hother
      · exact h.drawn other hother hforward
      · rw [List.mem_singleton.1 hother, hback] at hforward
        cases hforward
  | false =>
      obtain ⟨fromRank, toRank, hfrom, hto, hlt, hlength⟩ := hdown hback
      obtain ⟨first, hfirst, hfirstRank, hfirstCell⟩ := hplaced.refs edge.source hsource
      obtain ⟨last, hlast, hlastRank, hlastCell⟩ := hplaced.refs edge.target htarget
      have hfromRank : first.rank = fromRank := Option.some.inj (hfirstRank.symm.trans hfrom)
      have htoRank : last.rank = toRank := Option.some.inj (hlastRank.symm.trans hto)
      rw [hfromRank] at hfirstCell
      rw [htoRank] at hlastCell
      have hother : ∀ segment ∈ st.2, segment.edgeId ≠ edge.edgeId := fun segment hsegment heq =>
        hnew (heq ▸ h.ids segment hsegment)
      obtain ⟨new, hsegments, hown, hext, hdrawn⟩ := drawEdge_spec hback hfrom hto hlt
        (h.extended.length ▸ hlength) hfirst hfromRank hlast (h.extended.cellAt hfirstCell)
        (h.extended.cellAt hlastCell) hother
      refine ⟨h.extended.trans hext, fun segment hsegment => ?_, fun other hmem => ?_⟩
      · rw [hsegments] at hsegment
        rcases List.mem_append.1 hsegment with hsegment | hsegment
        · exact hids segment hsegment
        · rw [hown segment hsegment, List.map_append]
          exact List.mem_append_right _ List.mem_cons_self
      · intro hforward otherFrom otherTo hotherFrom hotherTo
        rcases List.mem_append.1 hmem with hmem | hmem
        · rw [hsegments]
          refine (h.drawn other hmem hforward otherFrom otherTo hotherFrom hotherTo).mono hext ?_
          intro segment hsegment heq
          exact hnew (hown segment hsegment ▸ heq ▸ List.mem_map_of_mem hmem)
        · rw [List.mem_singleton] at hmem
          subst hmem
          rw [← Option.some.inj (hfrom.symm.trans hotherFrom),
            ← Option.some.inj (hto.symm.trans hotherTo)]
          exact hdrawn

/-- Every edge that leads down is drawn. -/
theorem foldl_drawEdge_spec {rankOfNode : List (String × Nat)} {nodeIds : List String}
    {ranks : List (List GraphCell)} {cellRef : List (String × CellRef)} {edges : List GraphEdge}
    (hplaced : Placed rankOfNode nodeIds ranks cellRef)
    (hids : (edges.map GraphEdge.edgeId).Nodup)
    (hends : ∀ edge ∈ edges, edge.source ∈ nodeIds ∧ edge.target ∈ nodeIds)
    (hdown : ∀ edge ∈ edges, LeadsDown rankOfNode ranks.length edge) :
    DrawnAll rankOfNode ranks edges (edges.foldl (drawEdge rankOfNode cellRef) (ranks, [])) := by
  have hfold : ∀ (rest done : List GraphEdge) (st : List (List GraphCell) × List GraphSegment),
      ((done ++ rest).map GraphEdge.edgeId).Nodup → (∀ edge ∈ rest, edge ∈ edges) →
      DrawnAll rankOfNode ranks done st →
      DrawnAll rankOfNode ranks (done ++ rest) (rest.foldl (drawEdge rankOfNode cellRef) st) := by
    intro rest
    induction rest with
    | nil =>
        intro done st _ _ hdrawn
        rw [List.append_nil]
        exact hdrawn
    | cons edge rest ih =>
        intro done st hnodup hmem hdrawn
        have hedge := hmem edge List.mem_cons_self
        have hnew : edge.edgeId ∉ done.map GraphEdge.edgeId := by
          rw [List.map_append] at hnodup
          exact fun hdone => (List.nodup_append.1 hnodup).2.2 _ hdone _ List.mem_cons_self rfl
        have hsplit : done ++ edge :: rest = done ++ [edge] ++ rest := by simp
        rw [hsplit] at hnodup ⊢
        rw [List.foldl_cons]
        exact ih _ _ hnodup (fun other hother => hmem other (List.mem_cons_of_mem _ hother))
          (hdrawn.step hplaced hnew (hends edge hedge).1 (hends edge hedge).2 (hdown edge hedge))
  have hstart : DrawnAll rankOfNode ranks [] (ranks, []) :=
    ⟨.refl ranks, fun segment hsegment => absurd hsegment List.not_mem_nil,
      fun edge hedge => absurd hedge List.not_mem_nil⟩
  exact hfold edges [] _ hids (fun edge hedge => hedge) hstart

end PiWorkflows
