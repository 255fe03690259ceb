import PiWorkflows.Render.Graph

/-!
# The ranks of a graph

The search from the start node finds all nodes and marks the edges that close a
cycle. The other edges have no cycle, so the passes over them settle a level for each
node, and every edge without a mark leads to a higher level. Pulling a tail down keeps
that: a node of a tail has one way on, and that way leads down the tail.
-/

namespace PiWorkflows

open Relation

/-- An edge of the authored graph. -/
def GraphSnapshot.Leads (snapshot : GraphSnapshot) (a b : String) : Prop :=
  ∃ edge ∈ snapshot.edges, edge.source = a ∧ b ∈ edge.targets

/-- The edges are between declared nodes, and every node can be reached from the start. -/
structure GraphSnapshot.Connected (snapshot : GraphSnapshot) : Prop where
  sources : ∀ edge ∈ snapshot.edges, edge.source ∈ snapshot.nodes
  targets : ∀ edge ∈ snapshot.edges, ∀ nodeId ∈ edge.targets, nodeId ∈ snapshot.nodes
  reached : ∀ nodeId ∈ snapshot.nodes, ReflTransGen snapshot.Leads snapshot.startAt nodeId

/-! ## The expanded edges -/

theorem mem_expandEdge {edge : WorkflowEdge} {index : Nat} {expanded : GraphEdge}
    (h : expanded ∈ expandEdge edge index) :
    expanded.source = edge.source ∧ expanded.target ∈ edge.targets ∧
      expanded.isBackEdge = false ∧
      ∃ branch, expanded.edgeId = graphEdgeId expanded.source expanded.target index branch := by
  cases edge with
  | plain source target =>
      rw [expandEdge, List.mem_singleton] at h
      rw [h]
      exact ⟨rfl, List.mem_singleton_self _, rfl, 0, rfl⟩
  | switch source on cases =>
      obtain ⟨e, he, rfl⟩ := List.mem_map.1 h
      exact ⟨rfl, List.mem_map_of_mem (List.fst_mem_of_mem_zipIdx he), rfl, e.2, rfl⟩

theorem mem_expandEdges {snapshot : GraphSnapshot} {expanded : GraphEdge}
    (h : expanded ∈ expandEdges snapshot) :
    ∃ edge ∈ snapshot.edges, expanded.source = edge.source ∧ expanded.target ∈ edge.targets := by
  obtain ⟨e, he, hexpanded⟩ := List.mem_flatMap.1 h
  have hedge := mem_expandEdge hexpanded
  exact ⟨e.1, List.fst_mem_of_mem_zipIdx he, hedge.1, hedge.2.1⟩

theorem expandEdges_forward {snapshot : GraphSnapshot} {expanded : GraphEdge}
    (h : expanded ∈ expandEdges snapshot) : expanded.isBackEdge = false := by
  obtain ⟨e, -, hexpanded⟩ := List.mem_flatMap.1 h
  exact (mem_expandEdge hexpanded).2.2.1

/-- Every authored edge has an expanded one for each of its targets. -/
theorem step_of_leads {snapshot : GraphSnapshot} {a b : String} (h : snapshot.Leads a b) :
    DepthFirst.Step GraphEdge.source GraphEdge.target (expandEdges snapshot) a b := by
  obtain ⟨edge, hedge, rfl, htarget⟩ := h
  obtain ⟨index, hindex, hget⟩ := List.mem_iff_getElem.1 hedge
  have hnumbered : (edge, index) ∈ snapshot.edges.zipIdx := by
    rw [List.mem_zipIdx_iff_getElem?, List.getElem?_eq_getElem hindex, hget]
  have hexpanded : ∃ e ∈ expandEdge edge index, e.source = edge.source ∧ e.target = b := by
    cases edge with
    | plain source target =>
        rw [WorkflowEdge.targets, List.mem_singleton] at htarget
        exact ⟨_, List.mem_singleton_self _, rfl, htarget.symm⟩
    | switch source on cases =>
        obtain ⟨entry, hentry, rfl⟩ := List.mem_map.1 htarget
        obtain ⟨branch, hbranch, hcase⟩ := List.mem_iff_getElem.1 hentry
        have hcases : (entry, branch) ∈ cases.zipIdx := by
          rw [List.mem_zipIdx_iff_getElem?, List.getElem?_eq_getElem hbranch, hcase]
        exact ⟨_, List.mem_map_of_mem hcases, rfl, rfl⟩
  obtain ⟨e, he, hsource, htarget'⟩ := hexpanded
  exact ⟨e, List.mem_flatMap.2 ⟨_, hnumbered, he⟩, hsource, htarget'⟩

/-! ## The order of the nodes -/

/-- What the loop adds it found in the queue or at the end of an edge. -/
theorem bfsLoop_spec (edges : List GraphEdge) (queue ordered : List String) :
    ∃ more, bfsLoop edges queue ordered = ordered ++ more ∧
      (ordered.Nodup → (ordered ++ more).Nodup) ∧
      ∀ nodeId ∈ more, nodeId ∈ queue ∨ ∃ edge ∈ edges, edge.target = nodeId := by
  fun_induction bfsLoop edges queue ordered with
  | case1 ordered => exact ⟨[], (List.append_nil _).symm, by simp, by simp⟩
  | case2 ordered nodeId queue hseen ih =>
      obtain ⟨more, hloop, hnodup, hfound⟩ := ih
      exact ⟨more, hloop, hnodup, fun x hx => (hfound x hx).imp_left (List.mem_cons_of_mem _)⟩
  | case3 ordered nodeId queue hnew ih =>
      obtain ⟨more, hloop, hnodup, hfound⟩ := ih
      rw [List.append_assoc, List.singleton_append] at hloop hnodup
      refine ⟨nodeId :: more, hloop, fun hord => hnodup ?_, ?_⟩
      · exact List.nodup_append.2 ⟨hord, List.nodup_singleton nodeId, by
          rintro a ha b hb rfl
          exact hnew (List.mem_singleton.1 hb ▸ ha)⟩
      · intro x hx
        rcases List.mem_cons.1 hx with rfl | hx
        · exact .inl List.mem_cons_self
        · rcases hfound x hx with hqueue | htarget
          · rcases List.mem_append.1 hqueue with hqueue | htarget
            · exact .inl (List.mem_cons_of_mem _ hqueue)
            · obtain ⟨edge, hedge, rfl⟩ := List.mem_map.1 htarget
              exact .inr ⟨edge, (List.mem_filter.1 hedge).1, rfl⟩
          · exact .inr htarget

/-- The nodes that the loop did not come to are put behind the others. -/
theorem foldl_unseen_spec (nodes ordered : List String) (hnodup : ordered.Nodup) :
    ∃ more, nodes.foldl (fun ordered nodeId =>
        if nodeId ∈ ordered then ordered else ordered ++ [nodeId]) ordered = ordered ++ more ∧
      (ordered ++ more).Nodup ∧ (∀ nodeId ∈ nodes, nodeId ∈ ordered ++ more) ∧
      ∀ nodeId ∈ more, nodeId ∈ nodes := by
  induction nodes generalizing ordered with
  | nil => exact ⟨[], by simp, by simpa using hnodup, by simp, by simp⟩
  | cons nodeId nodes ih =>
      by_cases hseen : nodeId ∈ ordered
      · obtain ⟨more, hfold, hmore, hall, hfrom⟩ := ih ordered hnodup
        refine ⟨more, ?_, hmore, ?_, fun x hx => List.mem_cons_of_mem _ (hfrom x hx)⟩
        · rw [List.foldl_cons, if_pos hseen, hfold]
        · exact List.forall_mem_cons.2 ⟨List.mem_append_left _ hseen, hall⟩
      · have hnext : (ordered ++ [nodeId]).Nodup := by
          rw [List.nodup_append]
          refine ⟨hnodup, List.nodup_singleton nodeId, ?_⟩
          rintro a ha b hb rfl
          exact hseen (List.mem_singleton.1 hb ▸ ha)
        obtain ⟨more, hfold, hmore, hall, hfrom⟩ := ih (ordered ++ [nodeId]) hnext
        rw [List.append_assoc, List.singleton_append] at hfold hmore hall
        refine ⟨nodeId :: more, ?_, hmore, ?_, ?_⟩
        · rw [List.foldl_cons, if_neg hseen, hfold]
        · exact List.forall_mem_cons.2 ⟨by simp, hall⟩
        · exact List.forall_mem_cons.2
            ⟨List.mem_cons_self, fun x hx => List.mem_cons_of_mem _ (hfrom x hx)⟩

/-- The order begins with the start node, has every node once, and no other. -/
theorem bfsOrder_spec (snapshot : GraphSnapshot) (edges : List GraphEdge) :
    ∃ rest, bfsOrder snapshot edges = snapshot.startAt :: rest ∧
      (snapshot.startAt :: rest).Nodup ∧
      (∀ nodeId ∈ snapshot.nodes, nodeId ∈ snapshot.startAt :: rest) ∧
      ∀ nodeId ∈ rest, nodeId ∈ snapshot.nodes ∨ ∃ edge ∈ edges, edge.target = nodeId := by
  have hstart : bfsLoop edges [snapshot.startAt] [] =
      bfsLoop edges (edgeTargets edges snapshot.startAt) [snapshot.startAt] := by
    rw [bfsLoop, if_neg List.not_mem_nil, List.nil_append, List.nil_append]
  obtain ⟨found, hloop, hnodup, hfound⟩ :=
    bfsLoop_spec edges (edgeTargets edges snapshot.startAt) [snapshot.startAt]
  obtain ⟨more, hfold, hmore, hall, hfrom⟩ := foldl_unseen_spec snapshot.nodes
    ([snapshot.startAt] ++ found) (hnodup (List.nodup_singleton _))
  rw [List.append_assoc, List.singleton_append] at hfold hmore hall
  refine ⟨found ++ more, ?_, hmore, hall, fun x hx => ?_⟩
  · rw [bfsOrder, hstart, hloop]
    exact hfold
  · rcases List.mem_append.1 hx with hx | hx
    · rcases hfound x hx with hqueue | htarget
      · obtain ⟨edge, hedge, rfl⟩ := List.mem_map.1 hqueue
        exact .inr ⟨edge, (List.mem_filter.1 hedge).1, rfl⟩
      · exact .inr htarget
    · exact .inl (hfrom x hx)

/-! ## Back edges -/

/-- The edges with their marks, and what the search that set them has found. -/
structure Marked (snapshot : GraphSnapshot) (orderedNodeIds : List String)
    (edges : List GraphEdge) : Prop where
  /-- An order of the nodes that the edges without a mark agree with. -/
  order : ∃ order : List String, order.Nodup ∧ (∀ nodeId ∈ order, nodeId ∈ orderedNodeIds) ∧
    ∀ edge ∈ edges, edge.isBackEdge = false → [edge.source, edge.target].Sublist order
  closes : ∀ edge ∈ edges, edge.isBackEdge = true →
    ReflTransGen (fun a b => ∃ e ∈ edges, e.source = a ∧ e.target = b) edge.target edge.source
  reached : ∀ nodeId ∈ orderedNodeIds,
    ReflTransGen (fun a b => ∃ e ∈ edges.filter isForward, e.source = a ∧ e.target = b)
      snapshot.startAt nodeId

theorem markBackEdges_spec {snapshot : GraphSnapshot} (h : snapshot.Connected) :
    Marked snapshot (bfsOrder snapshot (expandEdges snapshot))
      (markBackEdges (expandEdges snapshot) (bfsOrder snapshot (expandEdges snapshot))) := by
  obtain ⟨rest, horder, hnodup, hall, hfrom⟩ := bfsOrder_spec snapshot (expandEdges snapshot)
  have htarget : ∀ e ∈ expandEdges snapshot, e.target ∈ snapshot.startAt :: rest := by
    intro e he
    obtain ⟨edge, hedge, -, htargets⟩ := mem_expandEdges he
    exact hall _ (h.targets edge hedge _ htargets)
  have hsource : ∀ e ∈ expandEdges snapshot, e.source ∈ snapshot.nodes := by
    intro e he
    obtain ⟨edge, hedge, heq, -⟩ := mem_expandEdges he
    exact heq ▸ h.sources edge hedge
  have hreach : ∀ nodeId ∈ snapshot.nodes, ReflTransGen
      (DepthFirst.Step GraphEdge.source GraphEdge.target (expandEdges snapshot))
      snapshot.startAt nodeId := fun nodeId hnode =>
    ReflTransGen.mono (fun _ _ => step_of_leads) _ _ (h.reached nodeId hnode)
  have hnodes : ∀ nodeId ∈ rest, ReflTransGen
      (DepthFirst.Step GraphEdge.source GraphEdge.target (expandEdges snapshot))
      snapshot.startAt nodeId := by
    intro nodeId hnode
    rcases hfrom nodeId hnode with hnode | ⟨e, he, rfl⟩
    · exact hreach nodeId hnode
    · exact (hreach _ (hsource e he)).tail ⟨e, he, rfl, rfl⟩
  have hfound : ∀ nodeId ∈ snapshot.startAt :: rest, ReflTransGen
      (DepthFirst.Step GraphEdge.source GraphEdge.target (expandEdges snapshot))
      snapshot.startAt nodeId := List.forall_mem_cons.2 ⟨.refl, hnodes⟩
  rw [horder]
  obtain ⟨hinv, hblack, hfree⟩ := DepthFirst.search_spec htarget
    (Nat.lt_succ_self rest.length : rest.length < (snapshot.startAt :: rest).length) hnodes
  have hedges : markBackEdges (expandEdges snapshot) (snapshot.startAt :: rest) =
      (expandEdges snapshot).map fun edge => { edge with isBackEdge := decide (edge ∈
        (DepthFirst.search GraphEdge.source GraphEdge.target (expandEdges snapshot)
          (snapshot.startAt :: rest).length (snapshot.startAt :: rest)).marked) } := rfl
  rw [hedges]
  generalize DepthFirst.search GraphEdge.source GraphEdge.target (expandEdges snapshot)
    (snapshot.startAt :: rest).length (snapshot.startAt :: rest) = st at hinv hblack hfree
  have hmap : ∀ e ∈ expandEdges snapshot, { e with isBackEdge := decide (e ∈ st.marked) } ∈
      (expandEdges snapshot).map fun edge =>
        { edge with isBackEdge := decide (edge ∈ st.marked) } := fun e he =>
    List.mem_map_of_mem (f := fun edge : GraphEdge =>
      { edge with isBackEdge := decide (edge ∈ st.marked) }) he
  refine ⟨⟨st.black, (List.nodup_append.1 hinv.nodup).2.1, ?_, ?_⟩, ?_, ?_⟩
  · intro nodeId hnode
    rcases ReflTransGen.cases_tail (hfree nodeId hnode) with heq | ⟨_, -, e, he, -, -, rfl, -⟩
    · exact heq ▸ List.mem_cons_self
    · exact htarget e he
  · intro marked hmarked hforward
    obtain ⟨e, he, rfl⟩ := List.mem_map.1 hmarked
    have hsourceBlack := hblack _ (hreach _ (hsource e he))
    exact (hinv.ordered e he hsourceBlack).resolve_left (of_decide_eq_false hforward)
  · intro marked hmarked hback
    obtain ⟨e, he, rfl⟩ := List.mem_map.1 hmarked
    refine ReflTransGen.mono ?_ _ _ (hinv.closes e (of_decide_eq_true hback))
    rintro _ _ ⟨e', he', rfl, rfl⟩
    exact ⟨_, hmap e' he', rfl, rfl⟩
  · intro nodeId hnode
    refine ReflTransGen.mono ?_ _ _ (hfree nodeId (hblack nodeId (hfound nodeId hnode)))
    rintro _ _ ⟨e, he, hmark, rfl, rfl, -⟩
    refine ⟨_, List.mem_filter.2 ⟨hmap e he, ?_⟩, rfl, rfl⟩
    simp [isForward, hmark]

/-! ## Levels -/

/-- Every node has a level, and every edge without a mark leads to a higher one. -/
theorem longestLevels_spec {snapshot : GraphSnapshot} {orderedNodeIds : List String}
    {edges : List GraphEdge} (h : Marked snapshot orderedNodeIds edges) :
    let levels := computeLongestLevels snapshot.startAt orderedNodeIds (edges.filter isForward)
    (∀ nodeId ∈ orderedNodeIds, ∃ level, levels.lookup nodeId = some level) ∧
      ∀ edge ∈ edges.filter isForward,
        Layers.Satisfied GraphEdge.source GraphEdge.target levels edge := by
  intro levels
  obtain ⟨order, hnodup, hsub, hbefore⟩ := h.order
  have hlength : order.length ≤ orderedNodeIds.length + 1 :=
    ((List.subperm_of_subset hnodup hsub).length_le).trans (Nat.le_succ _)
  have hforward : ∀ edge ∈ edges.filter isForward, [edge.source, edge.target].Sublist order := by
    intro edge hedge
    obtain ⟨hmem, hflag⟩ := List.mem_filter.1 hedge
    exact hbefore edge hmem (by simpa [isForward] using hflag)
  have hsat := Layers.passes_satisfied hnodup hforward hlength [(snapshot.startAt, 0)]
  have hrises : Layers.Rises [(snapshot.startAt, 0)] levels := Layers.passes_rises _ _
  obtain ⟨level, hstart, -⟩ := hrises snapshot.startAt 0 (by simp)
  exact ⟨fun nodeId hnode => Layers.level_of_reached hsat hstart (h.reached nodeId hnode), hsat⟩

theorem lookup_baseRanks {longest : List (String × Nat)} {nodeIds : List String}
    (h : ∀ nodeId ∈ nodeIds, ∃ level, longest.lookup nodeId = some level) (nodeId : String) :
    (baseRanks longest nodeIds).lookup nodeId =
      if nodeId ∈ nodeIds then longest.lookup nodeId else none := by
  have hfold : ∀ (nodeIds : List String) (ranks : List (String × Nat)) (fallback : Nat),
      (∀ nodeId ∈ nodeIds, ∃ level, longest.lookup nodeId = some level) →
      (nodeIds.foldl (baseRank longest) (ranks, fallback)).1.lookup nodeId =
        if nodeId ∈ nodeIds then longest.lookup nodeId else ranks.lookup nodeId := by
    intro nodeIds
    induction nodeIds with
    | nil => exact fun ranks fallback _ => by simp
    | cons first rest ih =>
        intro ranks fallback hall
        obtain ⟨level, hlevel⟩ := hall first List.mem_cons_self
        rw [List.foldl_cons, baseRank, hlevel]
        dsimp only
        rw [ih _ _ fun x hx => hall x (List.mem_cons_of_mem _ hx), Assoc.lookup_setKey]
        by_cases hrest : nodeId ∈ rest
        · rw [if_pos hrest, if_pos (List.mem_cons_of_mem _ hrest)]
        · by_cases hfirst : nodeId = first
          · rw [if_neg hrest, if_pos hfirst, if_pos (by simp [hfirst]), hfirst, hlevel]
          · rw [if_neg hrest, if_neg hfirst, if_neg (by simp [hrest, hfirst])]
  exact hfold nodeIds [] (highest longest) h

/-! ## Tails -/

/-- A known depth is 0 at a terminal node, or one more than that of the one node behind. -/
def TailSound (forwardEdges : List GraphEdge) (terminalNodeIds : List String) (memo : TailMemo) :
    Prop :=
  ∀ nodeId depth, memo.lookup nodeId = some (some depth) →
    nodeId ∈ terminalNodeIds ∨ ∃ child below, edgeTargets forwardEdges nodeId = [child] ∧
      memo.lookup child = some (some below) ∧ depth = below + 1

/-- A node without a depth gets one that its way on bears out, or stays without. -/
theorem TailSound.set {forwardEdges : List GraphEdge} {terminalNodeIds : List String}
    {memo : TailMemo} {nodeId : String} {depth : Option Nat}
    (h : TailSound forwardEdges terminalNodeIds memo)
    (hnot : ∀ d, memo.lookup nodeId ≠ some (some d))
    (hdepth : ∀ d, depth = some d → nodeId ∈ terminalNodeIds ∨
      ∃ child below, edgeTargets forwardEdges nodeId = [child] ∧
        memo.lookup child = some (some below) ∧ d = below + 1) :
    TailSound forwardEdges terminalNodeIds (Assoc.setKey nodeId depth memo) := by
  have hchild : ∀ child below, memo.lookup child = some (some below) →
      (Assoc.setKey nodeId depth memo).lookup child = some (some below) := by
    intro child below hbelow
    have hne : child ≠ nodeId := fun heq => hnot below (heq ▸ hbelow)
    rw [Assoc.lookup_setKey, if_neg hne, hbelow]
  intro x d hx
  rw [Assoc.lookup_setKey] at hx
  split at hx
  · next heq =>
      subst heq
      rcases hdepth d (Option.some.inj hx) with hterminal | ⟨child, below, htargets, hbelow, hd⟩
      · exact .inl hterminal
      · exact .inr ⟨child, below, htargets, hchild child below hbelow, hd⟩
  · rcases h x d hx with hterminal | ⟨child, below, htargets, hbelow, hd⟩
    · exact .inl hterminal
    · exact .inr ⟨child, below, htargets, hchild child below hbelow, hd⟩

theorem lookup_setKey_known {memo : TailMemo} {nodeId other : String} {depth known : Option Nat}
    (hnew : memo.lookup nodeId = none) (h : memo.lookup other = some known) :
    (Assoc.setKey nodeId depth memo).lookup other = some known := by
  have hne : other ≠ nodeId := by
    rintro rfl
    rw [hnew] at h
    cases h
  rw [Assoc.lookup_setKey, if_neg hne, h]

/-- What is known stays, and what is found out is sound. -/
theorem tailDepth_spec (forwardEdges : List GraphEdge) (terminalNodeIds : List String)
    (memo : TailMemo) (nodeId : String) (h : TailSound forwardEdges terminalNodeIds memo)
    (hkeys : (memo.map Prod.fst).Nodup) :
    let result := tailDepth forwardEdges terminalNodeIds memo nodeId
    TailSound forwardEdges terminalNodeIds result.1 ∧ (result.1.map Prod.fst).Nodup ∧
      result.1.lookup nodeId = some result.2 ∧
      ∀ other known, memo.lookup other = some known → result.1.lookup other = some known := by
  fun_induction tailDepth forwardEdges terminalNodeIds memo nodeId with
  | case1 memo nodeId existing hmemo => exact ⟨h, hkeys, hmemo, fun _ _ hother => hother⟩
  | case2 memo nodeId hmemo hterminal =>
      exact ⟨h.set (by simp [hmemo]) fun _ _ => .inl hterminal, Assoc.nodup_keys_setKey hkeys,
        by rw [Assoc.lookup_setKey, if_pos rfl], fun _ _ => lookup_setKey_known hmemo⟩
  | case3 memo nodeId hmemo hterminal child htargets memo' childDepth hresult depth ih =>
      have hentered : TailSound forwardEdges terminalNodeIds (Assoc.setKey nodeId none memo) :=
        h.set (by simp [hmemo]) fun _ hd => absurd hd (by simp)
      have hchild := ih hentered (Assoc.nodup_keys_setKey hkeys)
      rw [hresult] at hchild
      obtain ⟨hsound, hkeys', hlookup, hkept⟩ := hchild
      have hopen : memo'.lookup nodeId = some none :=
        hkept nodeId none (by rw [Assoc.lookup_setKey, if_pos rfl])
      refine ⟨hsound.set (by simp [hopen]) fun d hd => .inr ?_, Assoc.nodup_keys_setKey hkeys',
        by rw [Assoc.lookup_setKey, if_pos rfl], fun other known hother => ?_⟩
      · obtain ⟨below, hbelow, rfl⟩ := Option.map_eq_some_iff.1 hd
        exact ⟨child, below, htargets, hbelow ▸ hlookup, rfl⟩
      · have hne : other ≠ nodeId := by
          rintro rfl
          rw [hmemo] at hother
          cases hother
        rw [Assoc.lookup_setKey, if_neg hne]
        exact hkept other known (lookup_setKey_known hmemo hother)
  | case4 memo nodeId hmemo hterminal htargets =>
      exact ⟨h.set (by simp [hmemo]) fun _ hd => absurd hd (by simp),
        Assoc.nodup_keys_setKey hkeys, by rw [Assoc.lookup_setKey, if_pos rfl],
        fun _ _ => lookup_setKey_known hmemo⟩

theorem lookup_depths {memo : TailMemo} (hkeys : (memo.map Prod.fst).Nodup) {x : String} {d : Nat} :
    (memo.filterMap fun entry => entry.2.map fun depth => (entry.1, depth)).lookup x = some d ↔
      memo.lookup x = some (some d) := by
  induction memo with
  | nil => simp
  | cons entry rest ih =>
      obtain ⟨key, known⟩ := entry
      rw [List.map_cons, List.nodup_cons] at hkeys
      rw [Assoc.lookup_cons_eq]
      by_cases heq : x = key
      · rw [if_pos heq]
        cases known with
        | some depth =>
            rw [List.filterMap_cons]
            dsimp only [Option.map_some]
            rw [Assoc.lookup_cons_eq, if_pos heq]
            simp
        | none =>
            rw [List.filterMap_cons_none rfl, ih hkeys.2]
            refine iff_of_false (fun hmem => hkeys.1 ?_) (by simp)
            exact List.mem_map.2 ⟨(x, some d), Assoc.mem_of_lookup hmem, heq⟩
      · rw [if_neg heq]
        cases known with
        | some depth =>
            rw [List.filterMap_cons]
            dsimp only [Option.map_some]
            rw [Assoc.lookup_cons_eq, if_neg heq, ih hkeys.2]
        | none => rw [List.filterMap_cons_none rfl, ih hkeys.2]

/-- A node with a depth is terminal, or its one way on leads to a node that is less deep. -/
theorem tailDepths_spec {orderedNodeIds : List String} {forwardEdges : List GraphEdge}
    {terminalNodeIds : List String} {nodeId : String} {depth : Nat}
    (h : (computeTailDepths orderedNodeIds forwardEdges terminalNodeIds).lookup nodeId =
      some depth) :
    nodeId ∈ terminalNodeIds ∨ ∃ child below, edgeTargets forwardEdges nodeId = [child] ∧
      (computeTailDepths orderedNodeIds forwardEdges terminalNodeIds).lookup child = some below ∧
      depth = below + 1 := by
  have hfold : ∀ (nodeIds : List String) (memo : TailMemo),
      TailSound forwardEdges terminalNodeIds memo → (memo.map Prod.fst).Nodup →
      TailSound forwardEdges terminalNodeIds (nodeIds.foldl
        (fun memo nodeId => (tailDepth forwardEdges terminalNodeIds memo nodeId).1) memo) ∧
        ((nodeIds.foldl
          (fun memo nodeId => (tailDepth forwardEdges terminalNodeIds memo nodeId).1)
          memo).map Prod.fst).Nodup := by
    intro nodeIds
    induction nodeIds with
    | nil => exact fun memo hsound hkeys => ⟨hsound, hkeys⟩
    | cons first rest ih =>
        intro memo hsound hkeys
        have hfirst := tailDepth_spec forwardEdges terminalNodeIds memo first hsound hkeys
        exact ih _ hfirst.1 hfirst.2.1
  obtain ⟨hsound, hkeys⟩ := hfold orderedNodeIds [] (fun _ _ hx => absurd hx (by simp))
    List.nodup_nil
  have hlookup : ∀ x d, (computeTailDepths orderedNodeIds forwardEdges terminalNodeIds).lookup x =
      some d ↔ (orderedNodeIds.foldl (fun memo nodeId =>
        (tailDepth forwardEdges terminalNodeIds memo nodeId).1) []).lookup x = some (some d) := by
    exact fun x d => lookup_depths hkeys
  rcases hsound nodeId depth ((hlookup _ _).1 h) with hterminal | ⟨child, below, htargets, hbelow, hd⟩
  · exact .inl hterminal
  · exact .inr ⟨child, below, htargets, (hlookup _ _).2 hbelow, hd⟩

/-! ## Ranks -/

/-- A rank after the pull-down. -/
def pulledRank (tailDepth : Option Nat) (maxRank base : Nat) : Nat :=
  match tailDepth with
  | none => base
  | some depth => max base (maxRank - depth)

theorem lookup_pullTails (tailDepths : List (String × Nat)) (maxRank : Nat)
    {nodeIds : List String} {ranks : List (String × Nat)} (hnodup : nodeIds.Nodup)
    {nodeId : String} {base : Nat} (hbase : ranks.lookup nodeId = some base) :
    (pullTails tailDepths maxRank nodeIds ranks).lookup nodeId =
      some (if nodeId ∈ nodeIds then pulledRank (tailDepths.lookup nodeId) maxRank base
        else base) := by
  unfold pullTails
  induction nodeIds generalizing ranks base with
  | nil => rw [if_neg List.not_mem_nil]; exact hbase
  | cons first rest ih =>
      rw [List.nodup_cons] at hnodup
      rw [List.foldl_cons]
      by_cases hfirst : nodeId = first
      · subst hfirst
        rw [if_pos List.mem_cons_self]
        cases htail : tailDepths.lookup nodeId with
        | none =>
            dsimp only
            rw [ih hnodup.2 hbase, if_neg hnodup.1]
            rfl
        | some depth =>
            dsimp only
            have hset : (Assoc.setKey nodeId
                (max ((ranks.lookup nodeId).getD 0) (maxRank - depth)) ranks).lookup nodeId =
                some (max base (maxRank - depth)) := by
              rw [Assoc.lookup_setKey, if_pos rfl, hbase]
              rfl
            rw [ih hnodup.2 hset, if_neg hnodup.1]
            rfl
      · have hmem : nodeId ∈ first :: rest ↔ nodeId ∈ rest := by simp [hfirst]
        simp only [hmem]
        cases htail : tailDepths.lookup first with
        | none => exact ih hnodup.2 hbase
        | some depth =>
            have hkept : (Assoc.setKey first
                (max ((ranks.lookup first).getD 0) (maxRank - depth)) ranks).lookup nodeId =
                some base := by
              rw [Assoc.lookup_setKey, if_neg hfirst, hbase]
            exact ih hnodup.2 hkept

/-- The depths of the nodes that lie on a tail. -/
def forwardTails (orderedNodeIds : List String) (edges : List GraphEdge) : List (String × Nat) :=
  computeTailDepths orderedNodeIds (edges.filter isForward)
    (orderedNodeIds.filter fun nodeId => edgeTargets (edges.filter isForward) nodeId = [])

theorem lookup_nodeRanks {snapshot : GraphSnapshot} {orderedNodeIds : List String}
    {edges : List GraphEdge} {levels : List (String × Nat)} (hnodup : orderedNodeIds.Nodup)
    (hlevels : computeLongestLevels snapshot.startAt orderedNodeIds (edges.filter isForward) = levels)
    (hall : ∀ nodeId ∈ orderedNodeIds, ∃ level, levels.lookup nodeId = some level) :
    ∃ maxRank, ∀ nodeId ∈ orderedNodeIds, ∀ level, levels.lookup nodeId = some level →
      (computeNodeRanks snapshot orderedNodeIds edges).lookup nodeId =
        some (pulledRank ((forwardTails orderedNodeIds edges).lookup nodeId) maxRank level) := by
  refine ⟨highest (baseRanks levels orderedNodeIds), fun nodeId hnode level hlevel => ?_⟩
  have hbase : (baseRanks levels orderedNodeIds).lookup nodeId = some level := by
    rw [lookup_baseRanks hall, if_pos hnode, hlevel]
  have hpull := lookup_pullTails (forwardTails orderedNodeIds edges)
    (highest (baseRanks levels orderedNodeIds)) hnodup hbase
  rw [if_pos hnode] at hpull
  rw [← hpull, computeNodeRanks, hlevels]
  rfl

/-- Pulling down the tails leaves every edge without a mark leading down. -/
theorem pulledRank_lt {orderedNodeIds : List String} {edges : List GraphEdge} {edge : GraphEdge}
    (hedge : edge ∈ edges.filter isForward) {low high : Nat} (hlt : low < high) (maxRank : Nat) :
    pulledRank ((forwardTails orderedNodeIds edges).lookup edge.source) maxRank low <
      pulledRank ((forwardTails orderedNodeIds edges).lookup edge.target) maxRank high := by
  have hway : edge.target ∈ edgeTargets (edges.filter isForward) edge.source :=
    List.mem_map_of_mem (List.mem_filter.2 ⟨hedge, by simp⟩)
  cases hsource : (forwardTails orderedNodeIds edges).lookup edge.source with
  | none =>
      refine hlt.trans_le ?_
      unfold pulledRank
      split
      · exact le_rfl
      · exact Nat.le_max_left _ _
  | some depth =>
      rcases tailDepths_spec hsource with hterminal | ⟨child, below, htargets, hbelow, rfl⟩
      · have hnone := of_decide_eq_true (List.mem_filter.1 hterminal).2
        rw [hnone] at hway
        cases hway
      · rw [htargets, List.mem_singleton] at hway
        subst hway
        have htarget : (forwardTails orderedNodeIds edges).lookup edge.target = some below := hbelow
        rw [htarget]
        simp only [pulledRank]
        omega

/-- Every node has a rank, and every edge without a mark leads to a higher one. -/
theorem nodeRanks_spec {snapshot : GraphSnapshot} {orderedNodeIds : List String}
    {edges : List GraphEdge} (h : Marked snapshot orderedNodeIds edges)
    (hnodup : orderedNodeIds.Nodup)
    (hends : ∀ edge ∈ edges, edge.source ∈ orderedNodeIds ∧ edge.target ∈ orderedNodeIds) :
    (∀ nodeId ∈ orderedNodeIds, ∃ rank,
        (computeNodeRanks snapshot orderedNodeIds edges).lookup nodeId = some rank) ∧
      ∀ edge ∈ edges, edge.isBackEdge = false → ∃ fromRank toRank,
        (computeNodeRanks snapshot orderedNodeIds edges).lookup edge.source = some fromRank ∧
        (computeNodeRanks snapshot orderedNodeIds edges).lookup edge.target = some toRank ∧
          fromRank < toRank := by
  obtain ⟨hlevels, hsat⟩ := longestLevels_spec h
  obtain ⟨maxRank, hranks⟩ := lookup_nodeRanks hnodup rfl hlevels
  refine ⟨fun nodeId hnode => ?_, fun edge hedge hforward => ?_⟩
  · obtain ⟨level, hlevel⟩ := hlevels nodeId hnode
    exact ⟨_, hranks nodeId hnode level hlevel⟩
  · obtain ⟨hsource, htarget⟩ := hends edge hedge
    have hmem : edge ∈ edges.filter isForward :=
      List.mem_filter.2 ⟨hedge, by simp [isForward, hforward]⟩
    obtain ⟨low, hlow⟩ := hlevels _ hsource
    obtain ⟨high, hhigh, hlt⟩ := hsat edge hmem low hlow
    exact ⟨_, _, hranks _ hsource low hlow, hranks _ htarget high hhigh,
      pulledRank_lt hmem hlt maxRank⟩

end PiWorkflows
