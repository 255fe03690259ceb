import PiWorkflows.Proofs.EngineRuns

/-!
# Where a route leads

The graph check makes every target of an edge a node, and it asks for own members
because a node id could name an inherited one. The lookup of a switch does not
ask: a value that is no case but the name of an inherited member selects that
member, which is no node. A route is lawful otherwise, and only otherwise
(`resolveNext_lawful`, `resolveNextForOutcome_lawful`).
-/

namespace PiWorkflows

open Fallible

/-- The edge routes a node that failed. -/
def appliesToOutcome : WorkflowEdge → Bool
  | .plain _ _ => false
  | .switch _ on _ => "$result.".toList.isPrefixOf on.toList

/-- No route, and no edge of the node that applies; or one that the node's own edge declares as a
target and that is a node; or an error. -/
def LawfulRoute (workflow : CompiledWorkflow) (source : String) (applies : WorkflowEdge → Bool) :
    Except String (Option RouteTarget) → Prop
  | .error _ => True
  | .ok none => ∀ edge ∈ workflow.edges, edge.source = source → applies edge = false
  | .ok (some target) =>
      ∃ edge ∈ workflow.edges, edge.source = source ∧ applies edge = true ∧
        ∃ nodeId ∈ edge.targets, target = .node nodeId ∧ hasOwn workflow.nodes nodeId = true

/-- An edge of the node that applies reads a scalar that is no case and names an inherited member. -/
def ReadsInherited (workflow : CompiledWorkflow) (source : String) (applies : WorkflowEdge → Bool)
    (output result : JsRef) : Prop :=
  ∃ on cases, .switch source on cases ∈ workflow.edges ∧ applies (.switch source on cases) = true ∧
    ∃ value text, getBySwitchPath output result on = .ok value ∧ scalarText value = some text ∧
      cases.lookup text = none ∧ isInheritedName text = true

theorem ExecutableWorkflow.edgesKnown (workflow : ExecutableWorkflow) :
    (∀ edge ∈ workflow.edges, ∀ target ∈ edge.targets, hasOwn workflow.nodes target = true) ∧
      (workflow.edges.map WorkflowEdge.source).Nodup := by
  have hvalid := workflow.valid
  simp only [validateWorkflowDefinition, bind_ok] at hvalid
  obtain ⟨_, -, _, -, _, hedges, -⟩ := hvalid
  obtain ⟨hknown, hnodup⟩ := validateWorkflowEdges_ok.1 hedges
  exact ⟨fun edge hedge => (hknown edge hedge).2.2, hnodup⟩

/-- The edge that routing finds is the only one of the node. -/
theorem outgoingEdge_unique {edges : List WorkflowEdge}
    (hnodup : (edges.map WorkflowEdge.source).Nodup) {edge : WorkflowEdge} (hmem : edge ∈ edges) :
    outgoingEdge edges edge.source = some edge := by
  cases hfound : outgoingEdge edges edge.source with
  | none =>
      rw [outgoingEdge, List.find?_eq_none] at hfound
      exact absurd (hfound edge hmem) (by simp)
  | some found =>
      obtain ⟨hin, hsource⟩ := outgoingEdge_some hfound
      rw [List.inj_on_of_nodup_map hnodup hin hmem hsource]

theorem resolveSwitchTarget_cases {on : String} {cases : List (String × String)}
    {output result : JsRef} {target : RouteTarget}
    (h : resolveSwitchTarget on cases output result = .ok target) :
    (∃ nodeId ∈ cases.map Prod.snd, target = .node nodeId) ∨
      ∃ value text, getBySwitchPath output result on = .ok value ∧ scalarText value = some text ∧
        cases.lookup text = none ∧ isInheritedName text = true ∧ target = .inherited text := by
  simp only [resolveSwitchTarget, bind_ok] at h
  obtain ⟨value, hvalue, h⟩ := h
  split at h
  · cases h
  · next text htext =>
      split at h
      · next nodeId hcase =>
          split at h
          · cases h
          · cases h
            exact .inl ⟨nodeId, List.mem_map_of_mem (Assoc.mem_of_lookup hcase), rfl⟩
      · next hcase =>
          split at h
          · next hname =>
              cases h
              exact .inr ⟨value, text, hvalue, htext, hcase, hname, rfl⟩
          · cases h

theorem resolveSwitchTarget_inherited {on : String} {cases : List (String × String)}
    {output result value : JsRef} {text : String}
    (hvalue : getBySwitchPath output result on = .ok value) (htext : scalarText value = some text)
    (hcase : cases.lookup text = none) (hname : isInheritedName text = true) :
    resolveSwitchTarget on cases output result = .ok (.inherited text) := by
  rw [resolveSwitchTarget, hvalue]
  dsimp only [bind, Except.bind]
  rw [htext]
  dsimp only
  rw [hcase]
  exact if_pos hname

/-- The route over a switch that applies. -/
theorem switch_lawful (workflow : ExecutableWorkflow) {source on : String}
    {cases : List (String × String)} {applies : WorkflowEdge → Bool}
    (hmem : .switch source on cases ∈ workflow.edges)
    (happlies : applies (.switch source on cases) = true) (output result : JsRef) :
    LawfulRoute workflow.toCompiledWorkflow source applies
        ((resolveSwitchTarget on cases output result).map some) ↔
      ¬ReadsInherited workflow.toCompiledWorkflow source applies output result := by
  obtain ⟨hknown, hnodup⟩ := workflow.edgesKnown
  constructor
  · rintro hlawful ⟨on', cases', hmem', -, value, text, hvalue, htext, hcase, hname⟩
    have hsame := List.inj_on_of_nodup_map hnodup hmem hmem' rfl
    cases hsame
    rw [resolveSwitchTarget_inherited hvalue htext hcase hname] at hlawful
    obtain ⟨edge, -, -, -, nodeId, -, htarget, -⟩ := hlawful
    cases htarget
  · intro hnot
    cases hroute : resolveSwitchTarget on cases output result with
    | error message => trivial
    | ok target =>
        rcases resolveSwitchTarget_cases hroute with ⟨nodeId, hnode, rfl⟩ | hinherited
        · exact ⟨_, hmem, rfl, happlies, nodeId, hnode, rfl, hknown _ hmem nodeId hnode⟩
        · obtain ⟨value, text, hvalue, htext, hcase, hname, -⟩ := hinherited
          exact absurd ⟨on, cases, hmem, happlies, value, text, hvalue, htext, hcase, hname⟩ hnot

/-- What does not route leaves only what applies to nothing. -/
theorem noRoute_lawful (workflow : ExecutableWorkflow) {source : String}
    {applies : WorkflowEdge → Bool}
    (h : ∀ edge ∈ workflow.edges, edge.source = source → applies edge = false)
    (output result : JsRef) :
    LawfulRoute workflow.toCompiledWorkflow source applies (.ok none) ↔
      ¬ReadsInherited workflow.toCompiledWorkflow source applies output result := by
  refine iff_of_true h ?_
  rintro ⟨on, cases, hmem, happlies, -⟩
  rw [h _ hmem rfl] at happlies
  cases happlies

theorem noEdge_of_outgoing {edges : List WorkflowEdge} {source : String}
    (h : outgoingEdge edges source = none) : ∀ edge ∈ edges, edge.source ≠ source := by
  intro edge hedge heq
  rw [outgoingEdge, List.find?_eq_none] at h
  exact absurd (h edge hedge) (by simp [heq])

theorem resolveNext_lawful (workflow : ExecutableWorkflow) (source : String)
    (output result : JsRef) :
    LawfulRoute workflow.toCompiledWorkflow source (fun _ => true)
        (resolveNext workflow.edges source output result) ↔
      ¬ReadsInherited workflow.toCompiledWorkflow source (fun _ => true) output result := by
  obtain ⟨hknown, hnodup⟩ := workflow.edgesKnown
  unfold resolveNext
  split
  · next hnone =>
      exact noRoute_lawful workflow
        (fun edge hedge heq => absurd heq (noEdge_of_outgoing hnone edge hedge)) output result
  · next target hedge =>
      obtain ⟨hmem, rfl⟩ := outgoingEdge_some hedge
      refine iff_of_true ?_ ?_
      · exact ⟨_, hmem, rfl, rfl, target, List.mem_singleton_self target, rfl,
          hknown _ hmem target (List.mem_singleton_self target)⟩
      · rintro ⟨on, cases, hmem', -⟩
        cases List.inj_on_of_nodup_map hnodup hmem hmem' rfl
  · next on cases hedge =>
      obtain ⟨hmem, rfl⟩ := outgoingEdge_some hedge
      exact switch_lawful workflow hmem rfl output result

theorem resolveNextForOutcome_lawful (workflow : ExecutableWorkflow) (source : String)
    (result : JsRef) :
    LawfulRoute workflow.toCompiledWorkflow source appliesToOutcome
        (resolveNextForOutcome workflow.edges source result) ↔
      ¬ReadsInherited workflow.toCompiledWorkflow source appliesToOutcome .undefined result := by
  obtain ⟨-, hnodup⟩ := workflow.edgesKnown
  -- The edge that was found is the only one, so the others are no edges of the node.
  have honly : ∀ edge, outgoingEdge workflow.edges source = some edge →
      appliesToOutcome edge = false →
        ∀ other ∈ workflow.edges, other.source = source → appliesToOutcome other = false := by
    intro edge hedge hnot other hother heq
    have hfound := outgoingEdge_unique hnodup hother
    rw [heq, hedge] at hfound
    rwa [← Option.some.inj hfound]
  unfold resolveNextForOutcome
  split
  · next hnone =>
      exact noRoute_lawful workflow
        (fun edge hedge heq => absurd heq (noEdge_of_outgoing hnone edge hedge)) _ result
  · next target hedge => exact noRoute_lawful workflow (honly _ hedge rfl) _ result
  · next on cases hedge =>
      obtain ⟨hmem, rfl⟩ := outgoingEdge_some hedge
      split
      · next hresult => exact switch_lawful workflow hmem hresult _ result
      · next hresult =>
          exact noRoute_lawful workflow (honly _ hedge (Bool.eq_false_iff.2 hresult)) _ result

/-- In an executable workflow both functions route lawfully exactly if no edge that applies reads
the name of an inherited member that is no case. -/
theorem routes_lawful_iff (workflow : ExecutableWorkflow) (source : String)
    (output result : JsRef) :
    (LawfulRoute workflow.toCompiledWorkflow source (fun _ => true)
        (resolveNext workflow.edges source output result) ↔
      ¬ReadsInherited workflow.toCompiledWorkflow source (fun _ => true) output result) ∧
    (LawfulRoute workflow.toCompiledWorkflow source appliesToOutcome
        (resolveNextForOutcome workflow.edges source result) ↔
      ¬ReadsInherited workflow.toCompiledWorkflow source appliesToOutcome .undefined result) :=
  ⟨resolveNext_lawful workflow source output result,
    resolveNextForOutcome_lawful workflow source result⟩

/-- A judge whose verdict is routed by its text. -/
def verdictWorkflow : CompiledWorkflow :=
  (compileWorkflowDefinition (.mk "review" "judge" none false
    [("judge", { nodeType := .compute }), ("done", { nodeType := .compute })]
    [.switch "judge" "$.verdict" [("approve", "done")]] [] .none)).toOption.get (by decide)

theorem verdictWorkflow_valid : validateWorkflowDefinition verdictWorkflow = .ok () := by
  decide +kernel

theorem resolveNext_inherited :
    ¬∀ (workflow : ExecutableWorkflow) (source : String) (output : Json),
      LawfulRoute workflow.toCompiledWorkflow source (fun _ => true)
        (resolveNext workflow.edges source (.value output) .undefined) := by
  intro h
  have hlawful := h ⟨verdictWorkflow, verdictWorkflow_valid⟩ "judge"
    (.obj [("verdict", .str "constructor")])
  have hroute : resolveNext verdictWorkflow.edges "judge"
      (.value (.obj [("verdict", .str "constructor")])) .undefined =
        .ok (some (.inherited "constructor")) := by
    decide +kernel
  rw [hroute] at hlawful
  obtain ⟨edge, -, -, -, nodeId, -, htarget, -⟩ := hlawful
  cases htarget

end PiWorkflows
