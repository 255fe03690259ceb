import PiWorkflows.Proofs.PortedEdges

/-!
# The terminal ranks nodes as the browser does

The terminal's levels are integers, and the table of a pass, of the tails and of the
ranks is the other side's table with its numbers cast (`signed`). A missing level is
one below zero there, which is below every level that can be proposed.
-/

namespace PiWorkflows

/-- A table of levels as the terminal keeps it. -/
def signed (levels : List (String × Nat)) : List (String × Int) :=
  Assoc.mapValues Int.ofNat levels

theorem lookup_signed (levels : List (String × Nat)) (nodeId : String) :
    (signed levels).lookup nodeId = (levels.lookup nodeId).map Int.ofNat :=
  Assoc.lookup_map (fun _ => Int.ofNat) nodeId levels

theorem setKey_signed (nodeId : String) (level : Nat) (levels : List (String × Nat)) :
    Assoc.setKey nodeId (level : Int) (signed levels) = signed (Assoc.setKey nodeId level levels) :=
  (Assoc.mapValues_setKey Int.ofNat nodeId level levels).symm

/-! ## Levels -/

/-- A pass as the terminal makes it. -/
def signedPass (st : List (String × Nat) × Bool) : List (String × Int) × Bool :=
  (signed st.1, st.2)

theorem relaxLevel_signed (st : List (String × Nat) × Bool) (edge : GraphEdge) :
    Tui.relaxLevel (signedPass st) edge =
      signedPass (Layers.relax GraphEdge.source GraphEdge.target st edge) := by
  obtain ⟨levels, changed⟩ := st
  rw [Tui.relaxLevel, Layers.relax, signedPass]
  dsimp only
  rw [lookup_signed]
  cases hsource : levels.lookup edge.source with
  | none => rfl
  | some fromLevel =>
      have hhigher : (Int.ofNat fromLevel + 1 >
            ((signed levels).lookup edge.target).getD (-1)) ↔
          (levels.lookup edge.target).all (· < fromLevel + 1) = true := by
        rw [lookup_signed]
        cases levels.lookup edge.target with
        | none =>
            simp only [Option.map_none, Option.getD_none, Option.all_none, iff_true, Int.ofNat_eq_natCast]
            omega
        | some level =>
            simp only [Option.map_some, Option.getD_some, Option.all_some, decide_eq_true_eq,
              Int.ofNat_eq_natCast]
            omega
      dsimp only [Option.map_some]
      rw [if_congr hhigher rfl rfl]
      split
      · exact congrArg (·, true) (setKey_signed edge.target (fromLevel + 1) levels)
      · rfl

theorem levelPasses_signed (forwardEdges : List GraphEdge) (count : Nat)
    (levels : List (String × Nat)) :
    Tui.levelPasses forwardEdges count (signed levels) =
      signed (Layers.passes GraphEdge.source GraphEdge.target forwardEdges count levels) := by
  induction count generalizing levels with
  | zero => rfl
  | succ count ih =>
      have hpass : forwardEdges.foldl Tui.relaxLevel (signedPass (levels, false)) =
          signedPass (forwardEdges.foldl (Layers.relax GraphEdge.source GraphEdge.target)
            (levels, false)) := List.foldl_hom signedPass relaxLevel_signed
      have hstart : (signed levels, false) = signedPass (levels, false) := rfl
      rw [Tui.levelPasses, Layers.passes, hstart, hpass]
      generalize forwardEdges.foldl (Layers.relax GraphEdge.source GraphEdge.target)
        (levels, false) = pass
      obtain ⟨levels', changed⟩ := pass
      cases changed with
      | false => rfl
      | true => exact ih levels'

theorem longestLevels_signed (startAt : String) (orderedNodeIds : List String)
    (forwardEdges : List GraphEdge) :
    Tui.computeLongestLevels startAt orderedNodeIds forwardEdges =
      signed (computeLongestLevels startAt orderedNodeIds forwardEdges) :=
  levelPasses_signed forwardEdges _ [(startAt, 0)]

/-! ## Tails -/

/-- The targets behind a node are the ones its edges lead to, in order. -/
theorem lookup_outgoingTargets (forwardEdges : List GraphEdge) (nodeId : String) :
    ((Tui.outgoingTargets forwardEdges).lookup nodeId).getD [] =
      edgeTargets forwardEdges nodeId := by
  induction forwardEdges using List.reverseRecOn with
  | nil => rfl
  | append_singleton edges edge ih =>
      rw [Tui.outgoingTargets, List.foldl_append, List.foldl_cons, List.foldl_nil,
        ← Tui.outgoingTargets, Assoc.lookup_setKey, edgeTargets, List.filter_append,
        List.map_append, ← edgeTargets]
      by_cases heq : nodeId = edge.source
      · subst heq
        simp [ih]
      · simp [heq, Ne.symm heq, ih]

theorem lookup_outgoingCounts (forwardEdges : List GraphEdge) (nodeId : String) :
    ((Tui.outgoingCounts forwardEdges).lookup nodeId).getD 0 =
      (edgeTargets forwardEdges nodeId).length := by
  induction forwardEdges using List.reverseRecOn with
  | nil => rfl
  | append_singleton edges edge ih =>
      rw [Tui.outgoingCounts, List.foldl_append, List.foldl_cons, List.foldl_nil,
        ← Tui.outgoingCounts, Assoc.lookup_setKey, edgeTargets, List.filter_append,
        List.map_append, ← edgeTargets]
      by_cases heq : nodeId = edge.source
      · subst heq
        simp [ih]
      · simp [heq, Ne.symm heq, ih]

/-- The depths that are known so far, as the terminal keeps them. -/
def signedMemo (memo : TailMemo) : List (String × Option Int) :=
  Assoc.mapValues (Option.map Int.ofNat) memo

theorem setKey_signedMemo (nodeId : String) (depth : Option Nat) (memo : TailMemo) :
    Assoc.setKey nodeId (depth.map Int.ofNat) (signedMemo memo) =
      signedMemo (Assoc.setKey nodeId depth memo) :=
  (Assoc.mapValues_setKey (Option.map Int.ofNat) nodeId depth memo).symm

theorem lookup_signedMemo (memo : TailMemo) (nodeId : String) :
    (signedMemo memo).lookup nodeId = (memo.lookup nodeId).map (Option.map Int.ofNat) :=
  Assoc.lookup_map (fun _ => Option.map Int.ofNat) nodeId memo

theorem tailDepth_signed (forwardEdges : List GraphEdge) (terminal : List String) (memo : TailMemo)
    (nodeId : String) :
    Tui.tailDepth (Tui.outgoingTargets forwardEdges) terminal (signedMemo memo) nodeId =
      (signedMemo (tailDepth forwardEdges terminal memo nodeId).1,
        (tailDepth forwardEdges terminal memo nodeId).2.map Int.ofNat) := by
  fun_induction tailDepth forwardEdges terminal memo nodeId with
  | case1 memo nodeId existing hmemo =>
      have hlookup := lookup_signedMemo memo nodeId
      rw [hmemo] at hlookup
      rw [Tui.tailDepth]
      split
      · next depth h => rw [Option.some.inj (h.symm.trans hlookup)]
      · next h => cases h.symm.trans hlookup
  | case2 memo nodeId hmemo hterminal =>
      have hlookup := lookup_signedMemo memo nodeId
      rw [hmemo] at hlookup
      rw [Tui.tailDepth]
      split
      · next depth h => cases h.symm.trans hlookup
      · rw [if_pos hterminal]
        exact congrArg (·, some 0) (setKey_signedMemo nodeId (some 0) memo)
  | case3 memo nodeId hmemo hterminal child htargets memo' below hresult depth ih =>
      have hlookup := lookup_signedMemo memo nodeId
      rw [hmemo] at hlookup
      have hbehind := (lookup_outgoingTargets forwardEdges nodeId).trans htargets
      rw [hresult] at ih
      have hdepth : (below.map Int.ofNat).map (· + 1) = depth.map Int.ofNat := by
        cases below <;> rfl
      rw [Tui.tailDepth]
      split
      · next known h => cases h.symm.trans hlookup
      · rw [if_neg hterminal]
        split
        · next child' h =>
            cases h.symm.trans hbehind
            have hopen : Assoc.setKey nodeId none (signedMemo memo) =
                signedMemo (Assoc.setKey nodeId none memo) := setKey_signedMemo nodeId none memo
            rw [hopen, ih]
            dsimp only
            rw [hdepth, setKey_signedMemo]
        · next h => exact absurd hbehind (h child)
  | case4 memo nodeId hmemo hterminal htargets =>
      have hlookup := lookup_signedMemo memo nodeId
      rw [hmemo] at hlookup
      rw [Tui.tailDepth]
      split
      · next known h => cases h.symm.trans hlookup
      · rw [if_neg hterminal]
        split
        · next child h =>
            exact absurd ((lookup_outgoingTargets forwardEdges nodeId).symm.trans h) (htargets child)
        · exact congrArg (·, none) (setKey_signedMemo nodeId none memo)

theorem tailDepths_signed (orderedNodeIds : List String) (forwardEdges : List GraphEdge)
    (terminal : List String) :
    Tui.computeTailDepths orderedNodeIds forwardEdges terminal =
      signed (computeTailDepths orderedNodeIds forwardEdges terminal) := by
  have hfold : orderedNodeIds.foldl (fun memo nodeId =>
        (Tui.tailDepth (Tui.outgoingTargets forwardEdges) terminal memo nodeId).1)
        (signedMemo []) =
      signedMemo (orderedNodeIds.foldl (fun memo nodeId =>
        (tailDepth forwardEdges terminal memo nodeId).1) []) :=
    List.foldl_hom signedMemo fun memo nodeId =>
      congrArg Prod.fst (tailDepth_signed forwardEdges terminal memo nodeId)
  have hknown : ∀ memo : TailMemo, (signedMemo memo).filterMap (fun entry =>
      entry.2.map fun depth => (entry.1, depth)) =
        signed (memo.filterMap fun entry => entry.2.map fun depth => (entry.1, depth)) := by
    intro memo
    induction memo with
    | nil => rfl
    | cons entry memo ih =>
        obtain ⟨nodeId, depth⟩ := entry
        cases depth with
        | none => exact ih
        | some depth => exact congrArg ((nodeId, (depth : Int)) :: ·) ih
  rw [Tui.computeTailDepths, computeTailDepths, ← hknown]
  exact congrArg _ hfold

/-! ## Ranks -/

theorem foldl_max_cast (levels : List Nat) (low : Nat) :
    (levels.map Int.ofNat).foldl max (low : Int) = ((levels.foldl max low : Nat) : Int) := by
  induction levels generalizing low with
  | nil => rfl
  | cons level levels ih =>
      have hmax : max (low : Int) (Int.ofNat level) = ((max low level : Nat) : Int) := by
        rw [Int.ofNat_eq_natCast]
        omega
      rw [List.map_cons, List.foldl_cons, List.foldl_cons, ← ih, hmax]

theorem highestLevel_signed (levels : List (String × Nat)) :
    Tui.highestLevel (signed levels) = (highest levels : Nat) := by
  have hvalues : (signed levels).map Prod.snd = (levels.map Prod.snd).map Int.ofNat := by
    rw [signed, Assoc.mapValues, List.map_map, List.map_map]
    rfl
  rw [Tui.highestLevel, highest, hvalues]
  cases levels.map Prod.snd with
  | nil => rfl
  | cons level rest =>
      have hfold := foldl_max_cast rest level
      have hstart : rest.foldl max (max 0 level) = rest.foldl max level := by
        rw [Nat.zero_max]
      rw [List.map_cons, List.max?_cons', Option.getD_some, List.foldl_cons, hstart]
      exact (congrArg (max · 0) hfold).trans (max_eq_left (Int.natCast_nonneg _))

/-- The ranks so far and the last fallback, as the terminal keeps them. -/
def signedBase (st : List (String × Nat) × Nat) : List (String × Int) × Int :=
  (signed st.1, st.2)

theorem baseRanks_signed (longest : List (String × Nat)) (orderedNodeIds : List String) :
    Tui.baseRanks (signed longest) orderedNodeIds = signed (baseRanks longest orderedNodeIds) := by
  have hfold : orderedNodeIds.foldl (Tui.baseRank (signed longest))
        (signedBase ([], highest longest)) =
      signedBase (orderedNodeIds.foldl (baseRank longest) ([], highest longest)) := by
    refine List.foldl_hom signedBase fun st nodeId => ?_
    rw [signedBase, Tui.baseRank, baseRank, lookup_signed]
    cases longest.lookup nodeId with
    | none => exact congrArg (·, _) (setKey_signed nodeId (st.2 + 1) st.1)
    | some base => exact congrArg (·, _) (setKey_signed nodeId base st.1)
  rw [Tui.baseRanks, highestLevel_signed]
  exact congrArg Prod.fst hfold

theorem pullTails_signed (tailDepths : List (String × Nat)) (maxRank : Nat)
    (orderedNodeIds : List String) (ranks : List (String × Nat)) :
    Tui.pullTails (signed tailDepths) maxRank orderedNodeIds (signed ranks) =
      signed (pullTails tailDepths maxRank orderedNodeIds ranks) := by
  refine List.foldl_hom signed fun ranks nodeId => ?_
  rw [lookup_signed]
  cases tailDepths.lookup nodeId with
  | none => rfl
  | some depth =>
      have hrank : max (((signed ranks).lookup nodeId).getD 0) (maxRank - Int.ofNat depth) =
          ((max ((ranks.lookup nodeId).getD 0) (maxRank - depth) : Nat) : Int) := by
        rw [lookup_signed]
        cases ranks.lookup nodeId with
        | none => simp only [Option.map_none, Option.getD_none, Int.ofNat_eq_natCast]; omega
        | some rank => simp only [Option.map_some, Option.getD_some, Int.ofNat_eq_natCast]; omega
      dsimp only [Option.map_some]
      rw [hrank, setKey_signed]

/-- The numbers of a table that was cast. -/
theorem map_toNat_signed (ranks : List (String × Nat)) :
    (signed ranks).map (fun e => (e.1, (max e.2 0).toNat)) = ranks := by
  rw [signed, Assoc.mapValues, List.map_map]
  refine (List.map_congr_left fun e _ => ?_).trans (List.map_id _)
  exact Prod.ext rfl (congrArg Int.toNat (max_eq_left (Int.natCast_nonneg e.2)))

theorem levelPasses_scrubbed (forwardEdges : List GraphEdge) (count : Nat)
    (levels : List (String × Int)) :
    Tui.levelPasses (forwardEdges.map GraphEdge.scrubbed) count levels =
      Tui.levelPasses forwardEdges count levels := by
  induction count generalizing levels with
  | zero => rfl
  | succ count ih =>
      have hpass : (forwardEdges.map GraphEdge.scrubbed).foldl Tui.relaxLevel (levels, false) =
          forwardEdges.foldl Tui.relaxLevel (levels, false) := List.foldl_map
      rw [Tui.levelPasses, Tui.levelPasses, hpass]
      split
      split
      · exact ih _
      · rfl

/-- No rank depends on a label. -/
theorem computeNodeRanks_scrubbed (snapshot : GraphSnapshot) (orderedNodeIds : List String)
    (edges : List GraphEdge) :
    Tui.computeNodeRanks snapshot orderedNodeIds (edges.map GraphEdge.scrubbed) =
      Tui.computeNodeRanks snapshot orderedNodeIds edges := by
  have hforward : (edges.map GraphEdge.scrubbed).filter isForward =
      (edges.filter isForward).map GraphEdge.scrubbed := List.filter_map
  have htargets : ∀ forwardEdges : List GraphEdge,
      Tui.outgoingTargets (forwardEdges.map GraphEdge.scrubbed) =
        Tui.outgoingTargets forwardEdges := fun _ => List.foldl_map
  have hcounts : ∀ forwardEdges : List GraphEdge,
      Tui.outgoingCounts (forwardEdges.map GraphEdge.scrubbed) =
        Tui.outgoingCounts forwardEdges := fun _ => List.foldl_map
  simp only [Tui.computeNodeRanks, Tui.computeLongestLevels, Tui.computeTailDepths, hforward,
    htargets, hcounts, levelPasses_scrubbed]

theorem tui_computeNodeRanks (snapshot : GraphSnapshot) (orderedNodeIds : List String)
    (edges : List GraphEdge) :
    Tui.computeNodeRanks snapshot orderedNodeIds (edges.map GraphEdge.scrubbed) =
      computeNodeRanks snapshot orderedNodeIds edges := by
  have hterminal : ∀ forwardEdges : List GraphEdge,
      (orderedNodeIds.filter fun nodeId =>
        ((Tui.outgoingCounts forwardEdges).lookup nodeId).getD 0 = 0) =
      orderedNodeIds.filter fun nodeId => edgeTargets forwardEdges nodeId = [] := by
    intro forwardEdges
    refine List.filter_congr fun nodeId _ => ?_
    rw [lookup_outgoingCounts]
    exact decide_eq_decide.2 List.length_eq_zero_iff
  rw [computeNodeRanks_scrubbed, Tui.computeNodeRanks, computeNodeRanks, longestLevels_signed,
    hterminal, tailDepths_signed, baseRanks_signed, highestLevel_signed, pullTails_signed,
    map_toNat_signed]

end PiWorkflows
