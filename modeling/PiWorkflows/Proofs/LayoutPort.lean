import PiWorkflows.Proofs.PortedRanks

/-!
# The terminal's layout is the browser's

Both put the same cells in the same places. The terminal checks what it indexes with,
and no check fails: a node that has a rank has a cell, and a segment points to cells
that are there (`InRange`), before a rank is sorted and after. The vector in which the
terminal looks up the new place of a cell says where the order has it.
-/

namespace PiWorkflows

/-- A fold that may fail goes through if each step does, and is the image of the fold that
cannot fail. -/
theorem foldlM_some {α β γ : Type} (f : β → γ) (Inv : β → Prop) {step : β → α → β}
    {step' : γ → α → Option γ} {xs : List α}
    (hstep : ∀ st, Inv st → ∀ x ∈ xs, step' (f st) x = some (f (step st x)) ∧ Inv (step st x))
    {st : β} (hst : Inv st) :
    xs.foldlM step' (f st) = some (f (xs.foldl step st)) ∧ Inv (xs.foldl step st) := by
  induction xs generalizing st with
  | nil => exact ⟨rfl, hst⟩
  | cons x xs ih =>
      obtain ⟨hx, hinv⟩ := hstep st hst x List.mem_cons_self
      obtain ⟨hxs, hend⟩ := ih (fun st h y hy => hstep st h y (List.mem_cons_of_mem _ hy)) hinv
      rw [List.foldlM_cons, hx, List.foldl_cons]
      exact ⟨hxs, hend⟩

theorem mapM_some {α β : Type} {f : α → Option β} {g : α → β} {xs : List α}
    (h : ∀ x ∈ xs, f x = some (g x)) : xs.mapM f = some (xs.map g) := by
  induction xs with
  | nil => rfl
  | cons x xs ih =>
      rw [List.mapM_cons, h x List.mem_cons_self, ih fun y hy => h y (List.mem_cons_of_mem _ hy)]
      rfl

/-! ## Pushing cells -/

theorem getElem?_cellsAt {ranks : List (List GraphCell)} {rank : Nat} (h : rank < ranks.length) :
    ranks[rank]? = some (cellsAt ranks rank) := by
  rw [cellsAt, List.getElem?_eq_getElem h]
  rfl

theorem set_cellsAt {ranks : List (List GraphCell)} {rank : Nat} (h : rank < ranks.length)
    (cell : GraphCell) :
    ranks.set rank (cellsAt ranks rank ++ [cell]) = pushCell ranks rank cell := by
  rw [pushCell, List.modify_eq_set_getElem?, getElem?_cellsAt h]
  rfl

theorem tui_placeNode {rankOfNode : List (String × Nat)}
    {st : List (List GraphCell) × List (String × CellRef)} {nodeId : String}
    (h : (rankOfNode.lookup nodeId).getD 0 < st.1.length) :
    Tui.placeNode rankOfNode st nodeId = some (placeNode rankOfNode st nodeId) := by
  rw [Tui.placeNode, getElem?_cellsAt h]
  show some (st.1.set _ (cellsAt st.1 _ ++ [GraphCell.node nodeId]), _) = _
  rw [set_cellsAt h]
  rfl

theorem tui_placeNodes {rankOfNode : List (String × Nat)} {rankCount : Nat}
    (nodeIds : List String)
    (hranks : ∀ nodeId ∈ nodeIds, (rankOfNode.lookup nodeId).getD 0 < rankCount) :
    nodeIds.foldlM (Tui.placeNode rankOfNode) (List.replicate rankCount [], []) =
      some (nodeIds.foldl (placeNode rankOfNode) (List.replicate rankCount [], [])) :=
  (foldlM_some id (fun st => st.1.length = rankCount)
    (fun _ hst nodeId hnode => ⟨tui_placeNode (hst ▸ hranks nodeId hnode),
      (length_pushCell _ _ _).trans hst⟩)
    (List.length_replicate ..)).1

theorem segmentLabel_scrubbed (edge : GraphEdge) (fromRank : Nat) (previous : CellRef) :
    segmentLabel edge.scrubbed fromRank previous =
      (segmentLabel edge fromRank previous).map Tui.sanitizeText := by
  rw [segmentLabel, segmentLabel]
  split <;> rfl

/-- The terminal's state while it draws. -/
def scrubbedState (st : List (List GraphCell) × List GraphSegment) :
    List (List GraphCell) × List GraphSegment :=
  (st.1, st.2.map GraphSegment.scrubbed)

/-- The terminal's state on the way of an edge through the ranks. -/
def scrubbedChain (st : List (List GraphCell) × List GraphSegment × CellRef) :
    List (List GraphCell) × List GraphSegment × CellRef :=
  (st.1, st.2.1.map GraphSegment.scrubbed, st.2.2)

theorem tui_passThrough (edge : GraphEdge) (fromRank : Nat)
    {st : List (List GraphCell) × List GraphSegment × CellRef} {rank : Nat}
    (h : rank < st.1.length) :
    Tui.passThrough edge.scrubbed fromRank (scrubbedChain st) rank =
      some (scrubbedChain (passThrough edge fromRank st rank)) := by
  rw [Tui.passThrough, scrubbedChain, getElem?_cellsAt h, segmentLabel_scrubbed]
  show some (st.1.set rank (cellsAt st.1 rank ++ [GraphCell.virtual edge.edgeId]), _, _) = _
  rw [set_cellsAt h, passThrough, scrubbedChain, List.map_append]
  rfl

theorem tui_passThroughs (edge : GraphEdge) (fromRank : Nat) (places : List Nat)
    (st : List (List GraphCell) × List GraphSegment × CellRef)
    (h : ∀ rank ∈ places, rank < st.1.length) :
    places.foldlM (Tui.passThrough edge.scrubbed fromRank) (scrubbedChain st) =
      some (scrubbedChain (places.foldl (passThrough edge fromRank) st)) :=
  (foldlM_some scrubbedChain (fun c => c.1.length = st.1.length) (fun _ hc rank hrank =>
    ⟨tui_passThrough edge fromRank (hc ▸ h rank hrank), (length_pushCell _ _ _).trans hc⟩) rfl).1

/-- The terminal draws an edge if the nodes at its ends have cells and the lower rank exists. -/
theorem tui_drawEdge {rankOfNode : List (String × Nat)} {cellRef : List (String × CellRef)}
    {st : List (List GraphCell) × List GraphSegment} {edge : GraphEdge}
    (href : ∀ nodeId rank, rankOfNode.lookup nodeId = some rank →
      ∃ ref, cellRef.lookup nodeId = some ref)
    (hlength : ∀ nodeId rank, rankOfNode.lookup nodeId = some rank → rank < st.1.length) :
    Tui.drawEdge rankOfNode cellRef (scrubbedState st) edge.scrubbed =
      some (scrubbedState (drawEdge rankOfNode cellRef st edge)) := by
  have hback : edge.scrubbed.isBackEdge = edge.isBackEdge := rfl
  have hsource : edge.scrubbed.source = edge.source := rfl
  have htarget : edge.scrubbed.target = edge.target := rfl
  rw [Tui.drawEdge, drawEdge, hback, hsource, htarget]
  split
  · rfl
  · cases hfrom : rankOfNode.lookup edge.source with
    | none => rfl
    | some fromRank =>
        cases hto : rankOfNode.lookup edge.target with
        | none => rfl
        | some toRank =>
            dsimp only
            split
            · rfl
            · obtain ⟨first, hfirst⟩ := href _ _ hfrom
              obtain ⟨last, hlast⟩ := href _ _ hto
              have hlow := hlength _ _ hto
              have hfold := tui_passThroughs edge fromRank
                (List.range' (fromRank + 1) (toRank - fromRank - 1)) (st.1, st.2, first)
                fun rank hrank => by
                  have hbound := List.mem_range'_1.1 hrank
                  dsimp only
                  omega
              rw [hfirst, hlast, Option.getD_some, Option.getD_some, ← Nat.sub_sub]
              show ((List.range' (fromRank + 1) (toRank - fromRank - 1)).foldlM
                (Tui.passThrough edge.scrubbed fromRank)
                (scrubbedChain (st.1, st.2, first)) >>= _) = _
              rw [hfold]
              show some (_, _ ++ [GraphSegment.mk _ _ _ _ (segmentLabel edge.scrubbed _ _)]) = _
              rw [segmentLabel_scrubbed, scrubbedState, List.map_append]
              rfl

/-! ## Cells that are there -/

/-- Every segment points to cells that are there. -/
def InRange (st : List (List GraphCell) × List GraphSegment) : Prop :=
  ∀ segment ∈ st.2, segment.fromCell < (cellsAt st.1 segment.rank).length ∧
    segment.toCell < (cellsAt st.1 (segment.rank + 1)).length

theorem index_lt {ranks : List (List GraphCell)} {rank index : Nat} {cell : GraphCell}
    (h : cellAt ranks rank index = some cell) : index < (cellsAt ranks rank).length :=
  (List.getElem?_eq_some_iff.1 h).1

theorem InRange.mono {ranks ranks' : List (List GraphCell)} {segments : List GraphSegment}
    (h : InRange (ranks, segments)) (hgrown : Grown ranks ranks') :
    InRange (ranks', segments) := by
  have hlength : ∀ rank, (cellsAt ranks rank).length ≤ (cellsAt ranks' rank).length := by
    intro rank
    obtain ⟨edgeIds, hcells⟩ := hgrown.cells rank
    rw [hcells, List.length_append]
    exact Nat.le_add_right _ _
  intro segment hsegment
  obtain ⟨hfrom, hto⟩ := h segment hsegment
  exact ⟨hfrom.trans_le (hlength _), hto.trans_le (hlength _)⟩

/-- An edge that is drawn has segments between its own cells. -/
theorem inRange_drawEdge {rankOfNode : List (String × Nat)} {cellRef : List (String × CellRef)}
    {st : List (List GraphCell) × List GraphSegment} (edge : GraphEdge)
    (href : ∀ nodeId rank, rankOfNode.lookup nodeId = some rank → ∃ index,
      cellRef.lookup nodeId = some ⟨rank, index⟩ ∧ cellAt st.1 rank index = some (.node nodeId))
    (hlength : ∀ nodeId rank, rankOfNode.lookup nodeId = some rank → rank < st.1.length)
    (h : InRange st) :
    InRange (drawEdge rankOfNode cellRef st edge) ∧
      Grown st.1 (drawEdge rankOfNode cellRef st edge).1 := by
  rw [drawEdge]
  split
  · exact ⟨h, .refl _⟩
  · cases hfrom : rankOfNode.lookup edge.source with
    | none => exact ⟨h, .refl _⟩
    | some fromRank =>
        cases hto : rankOfNode.lookup edge.target with
        | none => exact ⟨h, .refl _⟩
        | some toRank =>
            dsimp only
            split
            · exact ⟨h, .refl _⟩
            · next hlt =>
                obtain ⟨count, rfl⟩ : ∃ count, toRank = fromRank + count + 1 :=
                  ⟨toRank - fromRank - 1, by omega⟩
                obtain ⟨first, hfirst, hfirstCell⟩ := href _ _ hfrom
                obtain ⟨last, hlast, hlastCell⟩ := href _ _ hto
                have hcount : fromRank + count + 1 - fromRank - 1 = count := by omega
                have hlow := hlength _ _ hto
                obtain ⟨place, ranks', new, hfold, hgrown, hplace, -, hplaces, hcells⟩ :=
                  foldl_passThrough_spec edge fromRank first st.1 st.2 count (by omega)
                have hcell : ∀ rank, fromRank ≤ rank → rank ≤ fromRank + count →
                    place rank < (cellsAt ranks' rank).length := by
                  intro rank hge hle
                  by_cases heq : rank = fromRank
                  · subst heq
                    rw [hplace]
                    exact index_lt (hgrown.cellAt hfirstCell)
                  · exact index_lt (hcells rank (by omega) hle)
                rw [hfirst, hlast, Option.getD_some, Option.getD_some, hcount, hfold]
                refine ⟨fun segment hsegment => ?_, hgrown⟩
                rcases List.mem_append.1 hsegment with hsegment | hsegment
                · rcases List.mem_append.1 hsegment with hsegment | hsegment
                  · exact h.mono hgrown segment hsegment
                  · have hmem := List.mem_map_of_mem (f := segmentPlaces) hsegment
                    rw [hplaces] at hmem
                    obtain ⟨rank, hrank, heq⟩ := List.mem_map.1 hmem
                    have hbound := List.mem_range'_1.1 hrank
                    obtain ⟨hrankEq, hrest⟩ := Prod.mk.inj heq
                    obtain ⟨hfromEq, htoEq⟩ := Prod.mk.inj hrest
                    rw [← hfromEq, ← htoEq, ← hrankEq]
                    exact ⟨hcell rank hbound.1 (by omega), hcell (rank + 1) (by omega) (by omega)⟩
                · rw [List.mem_singleton.1 hsegment]
                  exact ⟨hcell _ (by omega) le_rfl, index_lt (hgrown.cellAt hlastCell)⟩

/-! ## Sorting -/

theorem idxOf_lt_of_perm {order : List Nat} {count i : Nat} (h : order.Perm (List.range count))
    (hi : i < count) : order.idxOf i < count := by
  have hmem : i ∈ order := h.mem_iff.2 (List.mem_range.2 hi)
  have hlt := List.idxOf_lt_length_iff.2 hmem
  rwa [h.length_eq, List.length_range] at hlt

theorem inRange_sortRank (direction : SweepDirection)
    {st : List (List GraphCell) × List GraphSegment} (rank : Nat) (h : InRange st) :
    InRange (sortRank direction st rank) := by
  have hperm := rankOrder_perm st.2 rank direction (cellsAt st.1 rank).length
  have hlength := (reordered_sortRank direction st rank).perm
  rw [sortRank] at hlength ⊢
  dsimp only at hlength ⊢
  split
  · exact h
  · next hcount =>
      rw [if_neg hcount] at hlength
      split
      · exact h
      · next hsorted =>
          rw [if_neg hsorted] at hlength
          intro segment hsegment
          obtain ⟨old, hold, rfl⟩ := List.mem_map.1 hsegment
          obtain ⟨hfrom, hto⟩ := h old hold
          dsimp only
          rw [(hlength old.rank).length_eq, (hlength (old.rank + 1)).length_eq]
          constructor
          · split
            · next heq =>
                rw [heq] at hfrom ⊢
                exact idxOf_lt_of_perm hperm hfrom
            · exact hfrom
          · split
            · next heq =>
                rw [heq] at hto ⊢
                exact idxOf_lt_of_perm hperm hto
            · exact hto

/-- The vector of new places. -/
theorem inverseOrder_spec {order : List Nat} {count : Nat} (h : order.Perm (List.range count)) :
    ∃ inverse, Tui.inverseOrder order = some inverse ∧
      ∀ i < count, inverse[i]? = some (order.idxOf i) := by
  have hfold : ∀ (order : List Nat) (start : Nat) (inverse : List Nat), order.Nodup →
      (∀ i ∈ order, i < inverse.length) →
      ∃ inverse', (order.zipIdx start).foldlM (fun inverse e =>
          if e.1 < inverse.length then some (inverse.set e.1 e.2) else none) inverse =
            some inverse' ∧
        ∀ i, inverse'[i]? = if i ∈ order then some (start + order.idxOf i) else inverse[i]? := by
    intro order
    induction order with
    | nil => exact fun start inverse _ _ => ⟨inverse, rfl, fun i => by simp⟩
    | cons old order ih =>
        intro start inverse hnodup hall
        obtain ⟨hnew, hnodup⟩ := List.nodup_cons.1 hnodup
        have hold := hall old List.mem_cons_self
        obtain ⟨inverse', hfold, hget⟩ := ih (start + 1) (inverse.set old start) hnodup
          fun i hi => by
            rw [List.length_set]
            exact hall i (List.mem_cons_of_mem _ hi)
        refine ⟨inverse', ?_, fun i => ?_⟩
        · rw [List.zipIdx_cons, List.foldlM_cons, if_pos hold]
          exact hfold
        · rw [hget i]
          by_cases heq : i = old
          · subst heq
            rw [if_neg hnew, if_pos List.mem_cons_self, List.getElem?_set_self hold,
              List.idxOf_cons_self, Nat.add_zero]
          · rw [List.idxOf_cons_ne _ (Ne.symm heq), List.getElem?_set_ne (Ne.symm heq)]
            by_cases hmem : i ∈ order
            · rw [if_pos hmem, if_pos (List.mem_cons_of_mem _ hmem)]
              congr 1
              omega
            · rw [if_neg hmem, if_neg (by simp [heq, hmem])]
  have hnodup : order.Nodup := h.nodup_iff.2 List.nodup_range
  obtain ⟨inverse, hinverse, hget⟩ := hfold order 0 (List.replicate order.length 0) hnodup
    fun i hi => by
      rw [List.length_replicate, h.length_eq, List.length_range]
      exact List.mem_range.1 (h.mem_iff.1 hi)
  refine ⟨inverse, hinverse, fun i hi => ?_⟩
  rw [hget i, if_pos (h.mem_iff.2 (List.mem_range.2 hi)), Nat.zero_add]

/-- The terminal reindexes a rank to an order of its cells. -/
theorem tui_reindex {st : List (List GraphCell) × List GraphSegment} {rank : Nat}
    {order : List Nat} (h : InRange st) (hrank : rank < st.1.length)
    (hperm : order.Perm (List.range (cellsAt st.1 rank).length)) :
    Tui.reindex rank order (scrubbedState st) = some (scrubbedState (reindex rank order st)) := by
  obtain ⟨inverse, hinverse, hget⟩ := inverseOrder_spec hperm
  have hrow : order.mapM (fun old => (cellsAt st.1 rank)[old]?) =
      some (order.filterMap fun old => (cellsAt st.1 rank)[old]?) := by
    have hin : ∀ old ∈ order, old < (cellsAt st.1 rank).length := fun old hold =>
      List.mem_range.1 (hperm.mem_iff.1 hold)
    clear hperm hinverse hget
    induction order with
    | nil => rfl
    | cons old order ih =>
        have hcell := List.getElem?_eq_getElem (hin old List.mem_cons_self)
        rw [List.mapM_cons, List.filterMap_cons, hcell,
          ih fun i hi => hin i (List.mem_cons_of_mem _ hi)]
        rfl
  have hsegments : (st.2.map GraphSegment.scrubbed).mapM (Tui.reindexSegment rank inverse) =
      some ((st.2.map fun segment => { segment with
        fromCell := if segment.rank = rank then order.idxOf segment.fromCell
          else segment.fromCell
        toCell := if segment.rank + 1 = rank then order.idxOf segment.toCell
          else segment.toCell }).map GraphSegment.scrubbed) := by
    rw [List.mapM_map, List.map_map]
    refine mapM_some fun segment hsegment => ?_
    obtain ⟨hfrom, hto⟩ := h segment hsegment
    have hbelow : rank > 0 ∧ segment.rank = rank - 1 ↔ segment.rank + 1 = rank := by omega
    have hfromCell : Tui.newPlace inverse (segment.rank = rank) segment.fromCell =
        some (if segment.rank = rank then order.idxOf segment.fromCell else segment.fromCell) := by
      by_cases heq : segment.rank = rank
      · rw [if_pos heq, decide_eq_true heq]
        exact hget _ (heq ▸ hfrom)
      · rw [if_neg heq, decide_eq_false heq]
        rfl
    have htoCell : Tui.newPlace inverse (rank > 0 ∧ segment.rank = rank - 1) segment.toCell =
        some (if segment.rank + 1 = rank then order.idxOf segment.toCell else segment.toCell) := by
      by_cases heq : segment.rank + 1 = rank
      · rw [if_pos heq, decide_eq_true (hbelow.2 heq)]
        exact hget _ (heq ▸ hto)
      · rw [if_neg heq, decide_eq_false fun h => heq (hbelow.1 h)]
        rfl
    show (Tui.newPlace inverse (segment.rank = rank) segment.fromCell >>= _) = _
    rw [hfromCell]
    show (Tui.newPlace inverse (rank > 0 ∧ segment.rank = rank - 1) segment.toCell >>= _) = _
    rw [htoCell]
    rfl
  rw [Tui.reindex]
  show (st.1[rank]? >>= fun cells => Tui.inverseOrder order >>= fun inverse =>
    order.mapM (fun old => cells[old]?) >>= fun row =>
      (st.2.map GraphSegment.scrubbed).mapM (Tui.reindexSegment rank inverse) >>= fun segments =>
        some (st.1.set rank row, segments)) = _
  rw [getElem?_cellsAt hrank, hinverse]
  show (order.mapM (fun old => (cellsAt st.1 rank)[old]?) >>= fun row =>
      (st.2.map GraphSegment.scrubbed).mapM (Tui.reindexSegment rank inverse) >>= fun segments =>
        some (st.1.set rank row, segments)) = _
  rw [hrow, hsegments]
  rfl

theorem tui_neighbors (segments : List GraphSegment) (rank : Nat) (direction : SweepDirection)
    (index : Nat) :
    Tui.neighbors (segments.map GraphSegment.scrubbed) rank direction index =
      neighbors segments rank direction index := by
  cases direction with
  | down =>
      rw [Tui.neighbors, neighbors, List.filter_map, List.map_map]
      have hsame : ∀ segment : GraphSegment,
          rank > 0 ∧ segment.rank = rank - 1 ∧ segment.toCell = index ↔
            segment.rank + 1 = rank ∧ segment.toCell = index := by
        intro segment
        omega
      exact congrArg _ (List.filter_congr fun segment _ => decide_eq_decide.2 (hsame segment))
  | up =>
      rw [Tui.neighbors, neighbors, List.filter_map, List.map_map]
      rfl

theorem tui_score (places : List Nat) : Tui.score places = barycenter places := by
  rw [Tui.score, barycenter]
  exact if_congr List.isEmpty_iff rfl rfl

/-- No cell stands elsewhere. -/
theorem any_moved_eq_false {order : List Nat} :
    (order.zipIdx.any fun e => decide (e.2 ≠ e.1)) = false ↔ order = List.range order.length := by
  rw [List.any_eq_false]
  constructor
  · intro h
    have hsame : order.zipIdx.map Prod.fst = order.zipIdx.map Prod.snd := by
      refine List.map_congr_left fun e he => ?_
      have hplace := h e he
      rw [decide_eq_true_eq, not_not] at hplace
      exact hplace.symm
    rwa [List.zipIdx_map_fst, List.zipIdx_map_snd, ← List.range_eq_range'] at hsame
  · intro h e he
    have hget := List.mem_zipIdx_iff_getElem?.1 he
    rw [h] at hget
    obtain ⟨_, heq⟩ := List.getElem?_eq_some_iff.1 hget
    rw [List.getElem_range] at heq
    simp [heq]

theorem tui_sortRank (direction : SweepDirection)
    {st : List (List GraphCell) × List GraphSegment} {rank : Nat} (h : InRange st)
    (hrank : rank < st.1.length) :
    Tui.sortRank direction (scrubbedState st) rank =
      some (scrubbedState (sortRank direction st rank)) := by
  have horder : (((List.range (cellsAt st.1 rank).length).map fun index =>
      (index, Tui.score (Tui.neighbors (st.2.map GraphSegment.scrubbed) rank direction
        index))).insertionSort fun left right =>
          left.2 < right.2 ∨ left.2 = right.2 ∧ left.1 ≤ right.1).map Prod.fst =
      rankOrder st.2 rank direction (cellsAt st.1 rank).length := by
    simp only [tui_neighbors, tui_score]
    rfl
  have hperm := rankOrder_perm st.2 rank direction (cellsAt st.1 rank).length
  have hlength : (rankOrder st.2 rank direction (cellsAt st.1 rank).length).length =
      (cellsAt st.1 rank).length := by
    rw [hperm.length_eq, List.length_range]
  rw [Tui.sortRank, sortRank, scrubbedState, getElem?_cellsAt hrank]
  show (if (cellsAt st.1 rank).length < 2 then _ else _) = _
  dsimp only
  split
  · rfl
  · rw [horder]
    cases hany : (rankOrder st.2 rank direction (cellsAt st.1 rank).length).zipIdx.any
      fun e => decide (e.2 ≠ e.1) with
    | false =>
        have hsorted := any_moved_eq_false.1 hany
        rw [hlength] at hsorted
        rw [if_neg Bool.false_ne_true, if_pos hsorted]
        rfl
    | true =>
        have hsorted : rankOrder st.2 rank direction (cellsAt st.1 rank).length ≠
            List.range (cellsAt st.1 rank).length := by
          intro heq
          have hnone := any_moved_eq_false.2 (heq.trans (congrArg List.range hlength.symm))
          cases hany.symm.trans hnone
        rw [if_pos rfl, if_neg hsorted]
        exact tui_reindex h hrank hperm

theorem tui_sweep {st : List (List GraphCell) × List GraphSegment} (h : InRange st) :
    Tui.sweep (scrubbedState st) = some (scrubbedState (sweep st)) ∧ InRange (sweep st) := by
  have hsort : ∀ (direction : SweepDirection) (places : List Nat)
      (st : List (List GraphCell) × List GraphSegment), InRange st →
      (∀ rank ∈ places, rank < st.1.length) →
      places.foldlM (Tui.sortRank direction) (scrubbedState st) =
          some (scrubbedState (places.foldl (sortRank direction) st)) ∧
        InRange (places.foldl (sortRank direction) st) := by
    intro direction places st hin hplaces
    have hfold : places.foldlM (Tui.sortRank direction) (scrubbedState st) =
          some (scrubbedState (places.foldl (sortRank direction) st)) ∧
        InRange (places.foldl (sortRank direction) st) ∧
          (places.foldl (sortRank direction) st).1.length = st.1.length :=
      foldlM_some scrubbedState (fun c => InRange c ∧ c.1.length = st.1.length)
        (fun c hc rank hrank => ⟨tui_sortRank direction hc.1 (hc.2 ▸ hplaces rank hrank),
          inRange_sortRank direction rank hc.1,
          (reordered_sortRank direction c rank).length.trans hc.2⟩) ⟨hin, rfl⟩
    exact ⟨hfold.1, hfold.2.1⟩
  obtain ⟨hdown, hswept⟩ := hsort .down (List.range' 1 (st.1.length - 1)) st h
    fun rank hrank => by
      have hbound := List.mem_range'_1.1 hrank
      omega
  generalize hend : (List.range' 1 (st.1.length - 1)).foldl (sortRank .down) st = swept
    at hdown hswept
  have hup := hsort .up (List.range (swept.1.length - 1)).reverse swept hswept fun rank hrank =>
    (List.mem_range.1 (List.mem_reverse.1 hrank)).trans_le (Nat.sub_le _ 1)
  rw [Tui.sweep, scrubbedState]
  show ((List.range' 1 (st.1.length - 1)).foldlM (Tui.sortRank .down) (scrubbedState st) >>= _) =
    _ ∧ _
  rw [hdown, sweep, hend]
  exact hup

theorem tui_orderRanks {st : List (List GraphCell) × List GraphSegment} (h : InRange st) :
    Tui.orderRanksByBarycenter (scrubbedState st) =
      some (scrubbedState (orderRanksByBarycenter st)) :=
  (foldlM_some scrubbedState InRange (fun _ hst _ _ => tui_sweep hst) h).1

/-! ## The layout -/

theorem mem_keys_baseRanks {longest : List (String × Nat)} {nodeIds : List String}
    {nodeId : String} : nodeId ∈ (baseRanks longest nodeIds).map Prod.fst ↔ nodeId ∈ nodeIds := by
  have hfold : ∀ (nodeIds : List String) (ranks : List (String × Nat)) (fallback : Nat),
      nodeId ∈ (nodeIds.foldl (baseRank longest) (ranks, fallback)).1.map Prod.fst ↔
        nodeId ∈ nodeIds ∨ nodeId ∈ ranks.map Prod.fst := by
    intro nodeIds
    induction nodeIds with
    | nil => exact fun ranks fallback => by simp
    | cons first rest ih =>
        intro ranks fallback
        rw [List.foldl_cons, baseRank]
        cases longest.lookup first with
        | none =>
            dsimp only
            rw [ih, Assoc.mem_keys_setKey, List.mem_cons]
            tauto
        | some base =>
            dsimp only
            rw [ih, Assoc.mem_keys_setKey, List.mem_cons]
            tauto
  exact (hfold nodeIds [] _).trans (by simp)

theorem mem_keys_pullTails {tailDepths : List (String × Nat)} {maxRank : Nat}
    {nodeIds : List String} {ranks : List (String × Nat)}
    (h : ∀ nodeId, nodeId ∈ ranks.map Prod.fst ↔ nodeId ∈ nodeIds) (nodeId : String) :
    nodeId ∈ (pullTails tailDepths maxRank nodeIds ranks).map Prod.fst ↔ nodeId ∈ nodeIds := by
  refine List.foldlRecOn (motive := fun ranks : List (String × Nat) =>
    ∀ nodeId, nodeId ∈ ranks.map Prod.fst ↔ nodeId ∈ nodeIds) nodeIds _ h
    (fun ranks hranks first hfirst => ?_) nodeId
  split
  · exact hranks
  · intro nodeId
    rw [Assoc.mem_keys_setKey, hranks]
    exact ⟨fun hor => hor.elim (fun heq => heq ▸ hfirst) id, .inr⟩

/-- The nodes that have a rank are the ones in the order. -/
theorem exists_rank_iff {snapshot : GraphSnapshot} {nodeIds : List String} {edges : List GraphEdge}
    {nodeId : String} :
    (∃ rank, (computeNodeRanks snapshot nodeIds edges).lookup nodeId = some rank) ↔
      nodeId ∈ nodeIds := by
  have hkeys : nodeId ∈ (computeNodeRanks snapshot nodeIds edges).map Prod.fst ↔
      nodeId ∈ nodeIds := mem_keys_pullTails (fun _ => mem_keys_baseRanks) nodeId
  rw [← hkeys]
  generalize computeNodeRanks snapshot nodeIds edges = ranks
  constructor
  · rintro ⟨rank, hrank⟩
    exact List.mem_map.2 ⟨_, Assoc.mem_of_lookup hrank, rfl⟩
  · intro hmem
    refine Option.ne_none_iff_exists'.1 fun hnone => ?_
    obtain ⟨e, he, rfl⟩ := List.mem_map.1 hmem
    simpa using List.lookup_eq_none_iff.1 hnone e he

theorem max?_eq_highest (ranks : List (String × Nat)) :
    (ranks.map Prod.snd).max?.getD 0 = highest ranks := by
  rw [highest]
  cases ranks.map Prod.snd with
  | nil => rfl
  | cons rank rest => rw [List.max?_cons', Option.getD_some, List.foldl_cons, Nat.zero_max]

theorem tui_drawEdges {rankOfNode : List (String × Nat)} {cellRef : List (String × CellRef)}
    {ranks : List (List GraphCell)} (edges : List GraphEdge)
    (href : ∀ nodeId rank, rankOfNode.lookup nodeId = some rank → ∃ index,
      cellRef.lookup nodeId = some ⟨rank, index⟩ ∧ cellAt ranks rank index = some (.node nodeId))
    (hlength : ∀ nodeId rank, rankOfNode.lookup nodeId = some rank → rank < ranks.length) :
    (edges.map GraphEdge.scrubbed).foldlM (Tui.drawEdge rankOfNode cellRef) (ranks, []) =
        some (scrubbedState (edges.foldl (drawEdge rankOfNode cellRef) (ranks, []))) ∧
      InRange (edges.foldl (drawEdge rankOfNode cellRef) (ranks, [])) := by
  have hfold : edges.foldlM (fun st edge => Tui.drawEdge rankOfNode cellRef st edge.scrubbed)
        (scrubbedState (ranks, [])) =
        some (scrubbedState (edges.foldl (drawEdge rankOfNode cellRef) (ranks, []))) ∧
      InRange (edges.foldl (drawEdge rankOfNode cellRef) (ranks, [])) ∧
        Grown ranks (edges.foldl (drawEdge rankOfNode cellRef) (ranks, [])).1 :=
    foldlM_some scrubbedState (fun st => InRange st ∧ Grown ranks st.1) (fun st hst edge _ => by
      have hlength' : ∀ nodeId rank, rankOfNode.lookup nodeId = some rank → rank < st.1.length :=
        fun nodeId rank hrank => hst.2.length ▸ hlength nodeId rank hrank
      have href' : ∀ nodeId rank, rankOfNode.lookup nodeId = some rank → ∃ index,
          cellRef.lookup nodeId = some ⟨rank, index⟩ ∧
            cellAt st.1 rank index = some (.node nodeId) := by
        intro nodeId rank hrank
        obtain ⟨index, hindex, hcell⟩ := href nodeId rank hrank
        exact ⟨index, hindex, hst.2.cellAt hcell⟩
      obtain ⟨hin, hgrown⟩ := inRange_drawEdge edge href' hlength' hst.1
      refine ⟨tui_drawEdge (fun nodeId rank hrank => ?_) hlength', hin, hst.2.trans hgrown⟩
      obtain ⟨index, hindex, -⟩ := href nodeId rank hrank
      exact ⟨_, hindex⟩)
    ⟨fun segment hsegment => absurd hsegment List.not_mem_nil, .refl ranks⟩
  rw [List.foldlM_map]
  exact ⟨hfold.1, hfold.2.1⟩

/-- The terminal takes each step from the ranks to the finished layout. -/
theorem tui_steps {nodeIds : List String} {edges : List GraphEdge}
    {rankOfNode : List (String × Nat)} (hnodup : nodeIds.Nodup)
    (hranked : ∀ nodeId, (∃ rank, rankOfNode.lookup nodeId = some rank) ↔ nodeId ∈ nodeIds)
    {placed : List (List GraphCell) × List (String × CellRef)}
    (hplace : nodeIds.foldl (placeNode rankOfNode)
      (List.replicate (highest rankOfNode + 1) [], []) = placed)
    {drawn : List (List GraphCell) × List GraphSegment}
    (hdraw : edges.foldl (drawEdge rankOfNode placed.2) (placed.1, []) = drawn) :
    nodeIds.foldlM (Tui.placeNode rankOfNode)
        (List.replicate (highest rankOfNode + 1) [], []) = some placed ∧
      (edges.map GraphEdge.scrubbed).foldlM (Tui.drawEdge rankOfNode placed.2) (placed.1, []) =
        some (scrubbedState drawn) ∧
      Tui.orderRanksByBarycenter (scrubbedState drawn) =
        some (scrubbedState (orderRanksByBarycenter drawn)) := by
  have hranks : ∀ nodeId ∈ nodeIds, ∃ rank,
      rankOfNode.lookup nodeId = some rank ∧ rank < highest rankOfNode + 1 := by
    intro nodeId hnode
    obtain ⟨rank, hrank⟩ := (hranked nodeId).2 hnode
    exact ⟨rank, hrank, Nat.lt_succ_of_le (le_highest hrank)⟩
  have hplaces := tui_placeNodes nodeIds fun nodeId hnode => by
    obtain ⟨rank, hrank, hlt⟩ := hranks nodeId hnode
    rw [hrank]
    exact hlt
  obtain ⟨hplaced, hlength⟩ := foldl_placeNode_spec hnodup hranks
  rw [hplace] at hplaces hplaced hlength
  have hrefs : ∀ nodeId rank, rankOfNode.lookup nodeId = some rank → ∃ index,
      placed.2.lookup nodeId = some ⟨rank, index⟩ ∧
        cellAt placed.1 rank index = some (.node nodeId) := by
    intro nodeId rank hrank
    obtain ⟨⟨refRank, index⟩, href, hrefRank, hcell⟩ :=
      hplaced.refs nodeId ((hranked nodeId).1 ⟨rank, hrank⟩)
    cases hrank.symm.trans hrefRank
    exact ⟨index, href, hcell⟩
  obtain ⟨hdrawn, hin⟩ := tui_drawEdges edges hrefs fun nodeId rank hrank =>
    hlength ▸ Nat.lt_succ_of_le (le_highest hrank)
  rw [hdraw] at hdrawn hin
  exact ⟨hplaces, hdrawn, tui_orderRanks hin⟩

/-- Both lay a snapshot out alike. -/
theorem tui_layoutGraph (snapshot : GraphSnapshot) :
    Tui.layoutGraph snapshot = some (layoutGraph snapshot).scrubbed := by
  obtain ⟨rest, horder, hnodup, -⟩ := bfsOrder_spec snapshot (expandEdges snapshot)
  rw [← horder] at hnodup
  have hmarked := tui_markBackEdges (expandEdges_nodup snapshot).of_map
    (fun edge hedge => expandEdges_forward hedge) (bfsOrder snapshot (expandEdges snapshot))
  rw [Tui.layoutGraph, layoutGraph, tui_expandEdges, tui_bfsOrder, hmarked]
  generalize bfsOrder snapshot (expandEdges snapshot) = orderedNodeIds at *
  generalize markBackEdges (expandEdges snapshot) orderedNodeIds = edges
  rw [tui_computeNodeRanks]
  have hranked : ∀ nodeId, (∃ rank,
      (computeNodeRanks snapshot orderedNodeIds edges).lookup nodeId = some rank) ↔
        nodeId ∈ orderedNodeIds := fun nodeId => exists_rank_iff
  generalize computeNodeRanks snapshot orderedNodeIds edges = rankOfNode at *
  dsimp only
  rw [max?_eq_highest]
  generalize hplace : orderedNodeIds.foldl (placeNode rankOfNode)
    (List.replicate (highest rankOfNode + 1) [], []) = placed
  generalize hdraw : edges.foldl (drawEdge rankOfNode placed.2) (placed.1, []) = drawn
  obtain ⟨hplaces, hdrawn, hsorted⟩ := tui_steps hnodup hranked hplace hdraw
  generalize orderRanksByBarycenter drawn = sorted at *
  rw [hplaces]
  dsimp only [Option.bind_eq_bind, Option.bind_some]
  rw [hdrawn]
  dsimp only [Option.bind_some]
  rw [Prod.mk.eta, hsorted]
  rfl

/-- The terminal and the browser read the canonical text of an executable definition's snapshot
and make the same layout of it, but for the control characters of labels. -/
theorem layoutGraph_ported (workflow : ExecutableWorkflow) :
    Tui.layoutGraph workflow.graph.canonical.decoded =
      some (layoutGraph workflow.graph.canonical.parsed).scrubbed := by
  rw [decoded_canonical, parsed_canonical]
  exact tui_layoutGraph _

end PiWorkflows
