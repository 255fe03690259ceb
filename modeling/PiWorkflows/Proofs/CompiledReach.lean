import PiWorkflows.Proofs.CompiledGraph

/-!
# A compiled workflow runs

Every node of a compiled workflow can be reached. In one scope this follows the
walk its author's definition was checked with: what the walk visits has a
compiled node behind it (`VisitedAs`). The walk steps from an include to its
exits at once, where the compiled graph goes through the child, so the induction
over the tree has to have reached the whole child first.

With this, a compiled workflow passes the check of the whole graph except for
what that check says of ids alone: an id may have become too long, or be a name
that every record inherits.
-/

namespace PiWorkflows

open Fallible

/-- The scopes below the includes are those below the definitions they mount. -/
theorem mem_includesMounted {includes : AuthoredIncludes} {path : String}
    {scope : String × AuthoredWorkflow} (h : scope ∈ includes.mounted path) :
    ∃ name child, (name, child) ∈ includes.mounts ∧ scope ∈ child.mounted (qualify path name) := by
  induction includes using AuthoredIncludes.mounts.induct with
  | case1 => cases h
  | case2 name mapsSettings child rest ih =>
      rw [AuthoredIncludes.mounted] at h
      rcases List.mem_append.1 h with hchild | hrest
      · exact ⟨name, child, List.mem_cons_self, hchild⟩
      · obtain ⟨name', child', hmount, hscope⟩ := ih hrest
        exact ⟨name', child', List.mem_cons_of_mem _ hmount, hscope⟩
  | case3 name reference rest ih => exact ih h

theorem authoredName_noDot {name : String} (h : isAuthoredName name = true) :
    '.' ∉ name.toList := by
  have hnode := isNodeId_of_authored h
  unfold isNodeId at hnode
  split at hnode
  · cases hnode
  · next c cs hlist =>
      rw [Bool.and_eq_true, List.all_eq_true] at hnode
      rw [hlist]
      intro hmem
      rcases List.mem_cons.1 hmem with hfirst | hrest
      · subst hfirst
        exact absurd hnode.1 (by decide)
      · exact absurd (hnode.2 '.' hrest) (by decide)

theorem parseExitReference_name {name : String} (h : isAuthoredName name = true) :
    parseExitReference name = none := by
  rw [parseExitReference, splitText_of_notMem (authoredName_noDot h)]

theorem parseExitReference_exit {mount exitName : String} (hmount : isAuthoredName mount = true)
    (hexit : isAuthoredName exitName = true) :
    parseExitReference (mount ++ "." ++ exitName) = some (mount, exitName) := by
  have hsplit : splitText '.' (mount ++ "." ++ exitName) = [mount, exitName] := by
    show splitText '.' (mount ++ String.singleton '.' ++ exitName) = _
    rw [splitText_append, splitText_of_notMem (authoredName_noDot hmount),
      splitText_of_notMem (authoredName_noDot hexit)]
    rfl
  rw [parseExitReference, hsplit]
  exact if_pos ⟨isNodeId_ne_empty (isNodeId_of_authored hmount),
    isNodeId_ne_empty (isNodeId_of_authored hexit)⟩

section

/-- What can be reached along the given edges. -/
def ReachedBy (edges : List WorkflowEdge) (start id : String) : Prop :=
  Relation.ReflTransGen (Worklist.Next (graphSuccessors edges)) start id

variable {edges : List WorkflowEdge} {start path : String} {workflow : AuthoredWorkflow}

theorem ReachedBy.along {edge : WorkflowEdge} {target : String}
    (h : ReachedBy edges start edge.source) (hedge : edge ∈ edges)
    (htarget : target ∈ edge.targets) : ReachedBy edges start target :=
  h.tail (mem_graphSuccessors.2 ⟨edge, hedge, rfl, htarget⟩)

theorem qualifyEdge_targets (edge : WorkflowEdge) :
    (qualifyEdge path workflow edge).targets = edge.targets.map (qualify path) := by
  cases edge with
  | plain => rfl
  | switch source on cases =>
      rw [qualifyEdge, WorkflowEdge.targets, WorkflowEdge.targets, List.map_map, List.map_map]
      rfl

/-- A compiled node behind what the walk of a definition visits: a node or an entry of the scope, or
an exit of an include. -/
inductive VisitedAs (edges : List WorkflowEdge) (start path : String) (workflow : AuthoredWorkflow)
    (visited : String) : Prop
  | own (hmem : visited ∈ workflow.nodes.map Prod.fst ++ workflow.includes.names)
      (h : ReachedBy edges start (qualify path visited))
  | exit (mount exitName : String) (hparsed : parseExitReference visited = some (mount, exitName))
      (h : ReachedBy edges start (exitNodeId (qualify path mount) exitName))

theorem visited_reached {included : Bool} (hnames : ScopeNames workflow)
    (hmounted : MountedNames workflow) (hvalid : ScopeValid workflow included)
    (hedges : ∀ edge ∈ scopeEdges (path, workflow), edge ∈ edges)
    (hstart : ReachedBy edges start (qualify path workflow.startAt))
    (hexits : ∀ mount ∈ workflow.includes.mounts, ReachedBy edges start (qualify path mount.1) →
      ∀ exit ∈ mount.2.exits, ReachedBy edges start (exitNodeId (qualify path mount.1) exit.1))
    {visited : String}
    (h : Relation.ReflTransGen (Worklist.Next (authoredSuccessors workflow)) workflow.startAt
      visited) : VisitedAs edges start path workflow visited := by
  have hauthored : ∀ name ∈ workflow.nodes.map Prod.fst ++ workflow.includes.names,
      isAuthoredName name = true :=
    List.forall_mem_append.2 ⟨hnames.nodes, hnames.includes⟩
  induction h with
  | refl => exact .own (List.mem_append_left _ hvalid.start) hstart
  | @tail source target _ hnext ih =>
      rw [Worklist.Next, authoredSuccessors, List.mem_append] at hnext
      rcases hnext with halong | hleave
      · cases hedge : outgoingEdge workflow.edges source with
        | none => rw [hedge] at halong; cases halong
        | some edge =>
            rw [hedge] at halong
            have hmem : edge ∈ workflow.edges := List.mem_of_find?_eq_some hedge
            have hsource : edge.source = source := by
              have hfound := List.find?_some hedge
              rwa [decide_eq_true_eq] at hfound
            have hcompiled : qualifyEdge path workflow edge ∈ edges :=
              hedges _ (List.mem_append_right _ (List.mem_map_of_mem hmem))
            have hreached : ReachedBy edges start (qualifySource path workflow source) := by
              have hfrom := hsource ▸ hvalid.froms edge hmem
              rcases qualifySource_cases hmounted hfrom with ⟨hnode, hqualified⟩ |
                ⟨mount, exitName, hparsed, -, -, hqualified⟩ <;>
              rw [hqualified]
              · cases ih with
                | own _ h => exact h
                | exit mount exitName hparsed =>
                    rw [parseExitReference_name (hnames.nodes _ hnode)] at hparsed
                    cases hparsed
              · cases ih with
                | own hmem =>
                    rw [parseExitReference_name (hauthored _ hmem)] at hparsed
                    cases hparsed
                | exit mount' exitName' hparsed' h =>
                    rw [hparsed] at hparsed'
                    cases hparsed'
                    exact h
            have htarget : isAuthoredTarget workflow target = true :=
              hvalid.targets edge hmem target halong
            rw [isAuthoredTarget, Bool.or_eq_true, hasOwn_iff, decide_eq_true_eq] at htarget
            refine .own (List.mem_append.2 htarget) ?_
            rw [← hsource, ← qualifyEdge_source] at hreached
            refine hreached.along hcompiled ?_
            rw [qualifyEdge_targets]
            exact List.mem_map_of_mem halong
      · cases hchild : workflow.includes.child? source with
        | none => rw [hchild] at hleave; cases hleave
        | some child =>
            rw [hchild] at hleave
            obtain ⟨exit, hexit, rfl⟩ := List.mem_map.1 hleave
            have hmount := mounts_of_child? hchild
            have hname := hnames.includes source (mem_names_of_mounts hmount)
            refine .exit source exit.1
              (parseExitReference_exit hname ((hmounted _ hmount).exits exit hexit)) ?_
            cases ih with
            | own _ h => exact hexits _ hmount h exit hexit
            | exit mount exitName hparsed =>
                rw [parseExitReference_name hname] at hparsed
                cases hparsed

/-- What the walk through one scope needs: its checks, and its edges among the given ones. -/
structure ScopeFacts (edges : List WorkflowEdge) (scope : String × AuthoredWorkflow) : Prop where
  names : ScopeNames scope.2
  mounted : MountedNames scope.2
  valid : ScopeValid scope.2 (decide (scope.1 ≠ ""))
  edges : ∀ edge ∈ scopeEdges scope, edge ∈ edges

/-- All ids of one scope can be reached, if the exits of an include can be once its entry is. -/
theorem ScopeFacts.reached (hfacts : ScopeFacts edges (path, workflow))
    (hstart : ReachedBy edges start (qualify path workflow.startAt))
    (hexits : ∀ mount ∈ workflow.includes.mounts, ReachedBy edges start (qualify path mount.1) →
      ∀ exit ∈ mount.2.exits, ReachedBy edges start (exitNodeId (qualify path mount.1) exit.1)) :
    ∀ id ∈ scopeIds (path, workflow), ReachedBy edges start id := by
  have hown : ∀ name ∈ workflow.nodes.map Prod.fst ++ workflow.includes.names,
      ReachedBy edges start (qualify path name) := by
    intro name hname
    have hvisited := visited_reached hfacts.names hfacts.mounted hfacts.valid hfacts.edges hstart
      hexits (hfacts.valid.reachable name hname)
    cases hvisited with
    | own _ h => exact h
    | exit mount exitName hparsed =>
        have hauthored : isAuthoredName name = true :=
          (List.mem_append.1 hname).elim (hfacts.names.nodes name) (hfacts.names.includes name)
        rw [parseExitReference_name hauthored] at hparsed
        cases hparsed
  intro id hid
  rw [scopeIds, List.mem_append] at hid
  rcases hid with hid | hid
  · obtain ⟨name, hname, rfl⟩ := List.mem_map.1 hid
    exact hown name hname
  · split at hid
    · cases hid
    · next hpath =>
        obtain ⟨exit, hexit, rfl⟩ := List.mem_map.1 hid
        have hterminal : ReachedBy edges start (WorkflowEdge.plain (qualify path exit.2)
            (exitNodeId path exit.1)).source :=
          hown exit.2 (List.mem_append_left _ (hfacts.valid.exits exit hexit).1)
        have hinto : WorkflowEdge.plain (qualify path exit.2) (exitNodeId path exit.1) ∈ edges := by
          refine hfacts.edges _ (List.mem_append_left _ (List.mem_append_right _ ?_))
          dsimp only at hpath ⊢
          rw [if_neg hpath]
          exact List.mem_map_of_mem hexit
        exact hterminal.along hinto List.mem_cons_self

mutual

/-- If the start of a definition can be reached, so can everything mounted from there on. -/
theorem mounted_reached {workflow : AuthoredWorkflow} {path : String}
    (hfacts : ∀ scope ∈ workflow.mounted path, ScopeFacts edges scope)
    (hstart : ReachedBy edges start (qualify path workflow.startAt)) :
    ∀ scope ∈ workflow.mounted path, ∀ id ∈ scopeIds scope, ReachedBy edges start id := by
  match workflow with
  | .mk name startAt maxSteps settings nodes edges' exits includes =>
      rw [mounted_eq] at hfacts ⊢
      obtain ⟨hown, hfacts⟩ := List.forall_mem_cons.1 hfacts
      have hbelow : ∀ scope ∈ includes.mounted path, ScopeFacts edges scope := hfacts
      have hentered : ∀ mount ∈ includes.mounts, ReachedBy edges start (qualify path mount.1) →
          ∀ scope ∈ mount.2.mounted (qualify path mount.1), ∀ id ∈ scopeIds scope,
            ReachedBy edges start id := by
        intro mount hmount hreached
        refine includes_reached hbelow mount hmount ?_
        have hinto := hown.edges _ (List.mem_append_left _ (List.mem_append_left _
          (List.mem_map_of_mem hmount)))
        exact hreached.along hinto List.mem_cons_self
      have hscope := hown.reached hstart fun mount hmount hreached exit hexit => by
        refine hentered mount hmount hreached (qualify path mount.1, mount.2) ?_ _ ?_
        · rw [mounted_eq]
          exact List.mem_cons_self
        · have hname := hown.names.includes mount.1 (mem_names_of_mounts hmount)
          rw [scopeIds_mounted (qualify_ne_empty (isNodeId_of_authored hname))]
          exact List.mem_append_right _ (List.mem_map_of_mem hexit)
      refine List.forall_mem_cons.2 ⟨hscope, ?_⟩
      intro scope hmem
      obtain ⟨name, child, hmount, hinside⟩ := mem_includesMounted hmem
      refine hentered (name, child) hmount (hscope _ ?_) scope hinside
      exact List.mem_append_left _ (List.mem_map_of_mem
        (List.mem_append_right _ (mem_names_of_mounts hmount)))

theorem includes_reached {includes : AuthoredIncludes} {path : String}
    (hfacts : ∀ scope ∈ includes.mounted path, ScopeFacts edges scope) :
    ∀ mount ∈ includes.mounts,
      ReachedBy edges start (qualify (qualify path mount.1) mount.2.startAt) →
      ∀ scope ∈ mount.2.mounted (qualify path mount.1), ∀ id ∈ scopeIds scope,
        ReachedBy edges start id := by
  match includes with
  | .none => exact fun _ h => absurd h List.not_mem_nil
  | .unresolved name _ rest =>
      have hfacts : ∀ scope ∈ rest.mounted path, ScopeFacts edges scope := hfacts
      have hrest := includes_reached hfacts
      exact hrest
  | .mount name _ child rest =>
      rw [AuthoredIncludes.mounted, List.forall_mem_append] at hfacts
      rw [AuthoredIncludes.mounts, List.forall_mem_cons]
      exact ⟨mounted_reached hfacts.1, includes_reached hfacts.2⟩

end

end

/-! ## The checks of the compiled graph -/

section

variable {workflow : AuthoredWorkflow} {compiled : CompiledWorkflow}

theorem CompiledOf.facts (hspec : CompiledOf workflow compiled) (hshape : workflow.ShapeValid) :
    ∀ scope ∈ workflow.mounted "", ScopeFacts compiled.edges scope := by
  intro scope hscope
  refine ⟨(hshape scope hscope).names, hshape.mountedNames hscope, hspec.valid scope hscope, ?_⟩
  intro edge hedge
  exact hspec.edges.mem_iff.2 (List.mem_flatMap.2 ⟨scope, hscope, hedge⟩)

/-- Every id can be reached from the start node. -/
theorem CompiledOf.reaches (hspec : CompiledOf workflow compiled) (hshape : workflow.ShapeValid)
    {id : String} (hid : id ∈ workflow.nodeIds) : compiled.Reaches id := by
  obtain ⟨scope, hscope, hid⟩ := List.mem_flatMap.1 hid
  refine mounted_reached (hspec.facts hshape) ?_ scope hscope id hid
  rw [hspec.startAt]
  exact Relation.ReflTransGen.refl

/-- The ids of a mounted definition's scope are ids of the graph. -/
theorem mem_nodeIds {scope : String × AuthoredWorkflow} (hscope : scope ∈ workflow.mounted "")
    {name : String} (hname : name ∈ scope.2.nodes.map Prod.fst ++ scope.2.includes.names) :
    qualify scope.1 name ∈ workflow.nodeIds :=
  List.mem_flatMap.2 ⟨scope, hscope, List.mem_append_left _ (List.mem_map_of_mem hname)⟩

theorem exit_mem_nodeIds {scope : String × AuthoredWorkflow} (hscope : scope ∈ workflow.mounted "")
    (hpath : scope.1 ≠ "") {exitName : String} (hexit : exitName ∈ scope.2.exits.map Prod.fst) :
    exitNodeId scope.1 exitName ∈ workflow.nodeIds := by
  obtain ⟨exit, hmem, rfl⟩ := List.mem_map.1 hexit
  refine List.mem_flatMap.2 ⟨scope, hscope, List.mem_append_right _ ?_⟩
  rw [if_neg hpath]
  exact List.mem_map_of_mem hmem

/-- Edges lead from ids to ids. -/
theorem graphEdges_ids (hshape : workflow.ShapeValid)
    (hvalid : ∀ scope ∈ workflow.mounted "", ScopeValid scope.2 (decide (scope.1 ≠ "")))
    {edge : WorkflowEdge} (hedge : edge ∈ workflow.graphEdges) :
    edge.source ∈ workflow.nodeIds ∧ ∀ target ∈ edge.targets, target ∈ workflow.nodeIds := by
  obtain ⟨⟨path, scope⟩, hscope, hedge⟩ := List.mem_flatMap.1 hedge
  have hnames := (hshape _ hscope).names
  have hmountPath : ∀ mount ∈ scope.includes.mounts, qualify path mount.1 ≠ "" := by
    intro mount hmount
    exact qualify_ne_empty (isNodeId_of_authored (hnames.includes _ (mem_names_of_mounts hmount)))
  rw [scopeEdges, List.mem_append, List.mem_append] at hedge
  rcases hedge with (hentry | hexit) | hauthored
  · obtain ⟨mount, hmount, rfl⟩ := List.mem_map.1 hentry
    have hchild := mounted_closed hscope hmount
    refine ⟨mem_nodeIds hscope (List.mem_append_right _ (mem_names_of_mounts hmount)), ?_⟩
    rintro _ (_ | ⟨_, ⟨⟩⟩)
    exact mem_nodeIds hchild (List.mem_append_left _ (hvalid _ hchild).start)
  · split at hexit
    · cases hexit
    · next hpath =>
        obtain ⟨exit, hmem, rfl⟩ := List.mem_map.1 hexit
        refine ⟨mem_nodeIds hscope (List.mem_append_left _ ((hvalid _ hscope).exits exit hmem).1), ?_⟩
        rintro _ (_ | ⟨_, ⟨⟩⟩)
        exact exit_mem_nodeIds hscope hpath (List.mem_map_of_mem hmem)
  · obtain ⟨authored, hmem, rfl⟩ := List.mem_map.1 hauthored
    constructor
    · rw [qualifyEdge_source]
      by_cases hnode : hasOwn scope.nodes authored.source = true
      · rw [qualifySource, if_pos hnode]
        exact mem_nodeIds hscope (List.mem_append_left _ (hasOwn_iff.1 hnode))
      · rcases (hvalid _ hscope).froms authored hmem with hmem | ⟨mount, exitName, child, hparsed,
          hmount, hexit⟩
        · exact absurd (hasOwn_iff.2 hmem) hnode
        · rw [qualifySource, if_neg hnode, hparsed]
          exact exit_mem_nodeIds (mounted_closed hscope hmount) (hmountPath _ hmount) hexit
    · rw [qualifyEdge_targets]
      intro target htarget
      obtain ⟨authoredTarget, hleads, rfl⟩ := List.mem_map.1 htarget
      have hknown := (hvalid _ hscope).targets authored hmem authoredTarget hleads
      rw [isAuthoredTarget, Bool.or_eq_true, hasOwn_iff, decide_eq_true_eq] at hknown
      exact mem_nodeIds hscope (List.mem_append.2 hknown)

theorem nodeIds_segments (hshape : workflow.ShapeValid) {id : String}
    (hid : id ∈ workflow.nodeIds) :
    id ≠ "" ∧ ∀ segment ∈ splitText '/' id, isNodeId segment = true := by
  obtain ⟨⟨path, scope⟩, hscope, hid⟩ := List.mem_flatMap.1 hid
  have hpaths : ∀ scope ∈ workflow.mounted "",
      ∀ segment ∈ pathSegments scope.1, isNodeId segment = true := by
    refine mounted_induct (fun _ h => absurd h List.not_mem_nil) ?_
    intro scope hscope hpath mount hmount
    have hname := isNodeId_of_authored
      ((hshape scope hscope).names.includes _ (mem_names_of_mounts hmount))
    rw [pathSegments_qualify _ hname, List.forall_mem_append]
    exact ⟨hpath, List.forall_mem_singleton.2 hname⟩
  obtain ⟨name, hname, rfl⟩ := mem_scopeIds (hshape _ hscope).names hid
  have hsegments := pathSegments_qualify path hname
  rw [pathSegments, if_neg (qualify_ne_empty hname)] at hsegments
  rw [hsegments, List.forall_mem_append]
  exact ⟨qualify_ne_empty hname, hpaths _ hscope, List.forall_mem_singleton.2 hname⟩

/-- Compilation keeps the shape of an edge. -/
theorem graphEdges_shape (hshape : workflow.ShapeValid)
    (hvalid : ∀ scope ∈ workflow.mounted "", ScopeValid scope.2 (decide (scope.1 ≠ "")))
    {edge : WorkflowEdge} (hedge : edge ∈ workflow.graphEdges) : edge.HasShape := by
  obtain ⟨hsource, htargets⟩ := graphEdges_ids hshape hvalid hedge
  have hsource := (nodeIds_segments hshape hsource).1
  have htargets : ∀ target ∈ edge.targets, target ≠ "" :=
    fun target htarget => (nodeIds_segments hshape (htargets target htarget)).1
  cases edge with
  | plain source target => exact ⟨hsource, htargets target List.mem_cons_self⟩
  | switch source on cases =>
      obtain ⟨⟨path, scope⟩, hscope, hedge⟩ := List.mem_flatMap.1 hedge
      rw [scopeEdges, List.mem_append, List.mem_append] at hedge
      rcases hedge with (hentry | hexit) | hauthored
      · obtain ⟨mount, -, heq⟩ := List.mem_map.1 hentry
        cases heq
      · split at hexit
        · cases hexit
        · obtain ⟨exit, -, heq⟩ := List.mem_map.1 hexit
          cases heq
      · obtain ⟨authored, hmem, heq⟩ := List.mem_map.1 hauthored
        obtain ⟨-, -, -, -, -, -, -, -, hedges⟩ :=
          assertValidWorkflowDefinitionShape_ok.1 (hshape _ hscope).shape
        have hauthored := hedges authored hmem
        cases authored with
        | plain => cases heq
        | switch source' on' cases' =>
            obtain ⟨-, hon, hpath, hcases, -⟩ := hauthored
            cases heq
            refine ⟨hsource, hon, hpath, ?_, ?_⟩
            · exact fun h => hcases (List.map_eq_nil_iff.1 h)
            · exact fun entry hentry => htargets _ (List.mem_map_of_mem hentry)

/-- The check of the whole graph is about the length of the ids and the names records inherit. -/
theorem CompiledOf.validate (hspec : CompiledOf workflow compiled) (hshape : workflow.ShapeValid) :
    validateWorkflowDefinition compiled = .ok () ↔
      ∀ id ∈ workflow.nodeIds, id.utf8ByteSize ≤ nodeIdMaxBytes ∧ isInheritedName id = false := by
  have hroot : (("", workflow) : String × AuthoredWorkflow) ∈ workflow.mounted "" := by
    rw [mounted_eq]
    exact List.mem_cons_self
  simp only [validateWorkflowDefinition, bind_ok, require_ok, hasOwn_iff,
    assertValidWorkflowDefinitionShape_ok, validateWorkflowEdges_ok, assertAllNodesReachable_ok,
    assertValidNodeId_ok, exists_const]
  constructor
  · rintro ⟨⟨-, -, -, -, -, hids, -⟩, hstart, ⟨hedges, -⟩, -⟩ id hid
    -- What is reached is the start node or the target of an edge, and both were looked up.
    have hknown : id ∈ compiled.nodes.map Prod.fst := by
      have hreached := hspec.reaches hshape hid
      rcases Relation.ReflTransGen.cases_tail hreached with heq | ⟨source, -, hnext⟩
      · rw [heq]
        exact hstart
      · obtain ⟨edge, hedge, -, htarget⟩ := mem_graphSuccessors.1 hnext
        exact (hedges edge hedge).2.2 id htarget
    exact (hids id hknown).2
  · intro hids
    have hknown : ∀ id ∈ workflow.nodeIds, id ∈ compiled.nodes.map Prod.fst := by
      intro id hid
      refine (hspec.nodes id).2 ⟨?_, hid⟩
      rintro rfl
      exact absurd (hids _ hid).2 (by decide)
    have hstart : compiled.startAt ∈ compiled.nodes.map Prod.fst := by
      rw [hspec.startAt]
      exact hknown _ (mem_nodeIds hroot (List.mem_append_left _ (hspec.valid _ hroot).start))
    obtain ⟨hname, hreserved, hfirst, hsteps, -⟩ :=
      assertValidWorkflowDefinitionShape_ok.1 (hshape _ hroot).shape
    refine ⟨⟨?_, ?_, ?_, ?_, ?_, ?_, ?_, ?_, ?_⟩, hstart, ⟨?_, hspec.sources hshape⟩, ?_⟩
    · rw [CompiledWorkflow.shape, hspec.name]
      exact hname
    · rw [CompiledWorkflow.shape, hspec.name]
      exact hreserved
    · rw [CompiledWorkflow.shape, hspec.startAt]
      exact hfirst
    · rw [CompiledWorkflow.shape, hspec.maxSteps]
      exact hsteps
    · exact List.ne_nil_of_mem hstart
    · intro id hid
      have hmem := ((hspec.nodes id).1 hid).2
      refine ⟨⟨?_, by rintro ⟨⟩⟩, hids id hmem⟩
      intro segment hsegment
      exact ⟨(nodeIds_segments hshape hmem).2 segment hsegment, by rintro ⟨⟩⟩
    · exact fun _ h => absurd h List.not_mem_nil
    · exact fun _ h => absurd h List.not_mem_nil
    · intro edge hedge
      exact graphEdges_shape hshape hspec.valid (hspec.edges.mem_iff.1 hedge)
    · intro edge hedge
      obtain ⟨hsource, htargets⟩ :=
        graphEdges_ids hshape hspec.valid (hspec.edges.mem_iff.1 hedge)
      refine ⟨hknown _ hsource, List.not_mem_nil, ?_⟩
      exact fun target htarget => hknown _ (htargets target htarget)
    · exact fun id hid => hspec.reaches hshape ((hspec.nodes id).1 hid).2

/-- Among things that a key tells apart, only one has a given key. -/
theorem filter_eq_singleton {α β : Type} [DecidableEq β] {f : α → β} {l : List α}
    (h : (l.map f).Nodup) {x : α} (hx : x ∈ l) : l.filter (fun y => decide (f y = f x)) = [x] := by
  induction l with
  | nil => cases hx
  | cons y rest ih =>
      rw [List.map_cons, List.nodup_cons] at h
      rcases List.mem_cons.1 hx with rfl | hrest
      · rw [List.filter_cons, if_pos (decide_eq_true rfl), List.cons.injEq]
        refine ⟨rfl, List.filter_eq_nil_iff.2 ?_⟩
        intro z hz heq
        exact h.1 (List.mem_map.2 ⟨z, hz, of_decide_eq_true heq⟩)
      · rw [List.filter_cons, if_neg, ih h.2 hrest]
        intro heq
        exact h.1 (List.mem_map.2 ⟨x, hrest, (of_decide_eq_true heq).symm⟩)

/-- Of a compiled tree of valid shape: no id is given twice, the compiled nodes have these ids, an
authored edge is the one compiled edge that leaves its source and all other edges belong to entries
and exits, every node can be reached, and the graph passes the last check unless an id is too long
or inherited. A root include named `__proto__` is the one that gets no node. -/
theorem compileWorkflowDefinition_graph (hshape : workflow.ShapeValid)
    (h : compileWorkflowDefinition workflow = .ok compiled) :
    workflow.nodeIds.Nodup ∧
    (compiled.nodes.map Prod.fst).Perm
      (workflow.nodeIds.filter fun id => decide (id ≠ "__proto__")) ∧
    (∀ scope ∈ workflow.mounted "", ∀ edge ∈ scope.2.edges,
      compiled.edges.filter
          (fun other => decide (other.source = qualifySource scope.1 scope.2 edge.source)) =
        [qualifyEdge scope.1 scope.2 edge]) ∧
    compiled.edges.Perm workflow.graphEdges ∧
    (compiled.edges.map WorkflowEdge.source).Nodup ∧
    (∀ id ∈ compiled.nodes.map Prod.fst, compiled.Reaches id) ∧
    (validateWorkflowDefinition compiled = .ok () ↔
      ∀ id ∈ workflow.nodeIds, id.utf8ByteSize ≤ nodeIdMaxBytes ∧ isInheritedName id = false) := by
  have hspec := compiled_mounted hshape h
  refine ⟨nodup_nodeIds hshape, hspec.nodeIds hshape, ?_, hspec.edges, hspec.sources hshape, ?_,
    hspec.validate hshape⟩
  · intro scope hscope edge hedge
    rw [← qualifyEdge_source]
    refine filter_eq_singleton (hspec.sources hshape) ?_
    exact (hspec.facts hshape scope hscope).edges _
      (List.mem_append_right _ (List.mem_map_of_mem hedge))
  · exact fun id hid => hspec.reaches hshape ((hspec.nodes id).1 hid).2

end

/-- The root mounts one child under a name that every record inherits. -/
def inheritedMount : AuthoredWorkflow :=
  .mk "review" "draft" none false [("draft", { nodeType := .compute })]
    [.plain "draft" "constructor"] []
    (.mount "constructor" false
      (.mk "check" "judge" none false [("judge", { nodeType := .compute })] []
        [("done", "judge")] .none) .none)

theorem inheritedMount_shapeValid : inheritedMount.ShapeValid := by
  intro scope hscope
  have hscopes : inheritedMount.mounted "" = [("", inheritedMount), ("constructor",
      .mk "check" "judge" none false [("judge", { nodeType := .compute })] [] [("done", "judge")]
        .none)] := rfl
  rw [hscopes] at hscope
  simp only [List.mem_cons, List.not_mem_nil, or_false] at hscope
  rcases hscope with rfl | rfl <;> exact ⟨by decide, by decide, by decide, rfl⟩

theorem inheritedMount_refused :
    ∃ compiled, inheritedMount.ShapeValid ∧
      compileWorkflowDefinition inheritedMount = .ok compiled ∧
      validateWorkflowDefinition compiled = .error
        "Invalid workflow definition: node id \"constructor\" shadows an Object prototype member" :=
  ⟨_, inheritedMount_shapeValid, rfl, rfl⟩

/-- The same child is mounted twice, and once more inside a child. -/
def twiceMounted : AuthoredWorkflow :=
  let judge : AuthoredWorkflow :=
    .mk "check" "judge" none false [("judge", { nodeType := .compute })] [] [("done", "judge")] .none
  .mk "review" "draft" none false [("draft", { nodeType := .compute })]
    [.plain "draft" "check", .plain "check.done" "again"] []
    (.mount "check" false judge (.mount "again" false
      (.mk "repair" "fix" none false [("fix", { nodeType := .compute }), ("end", { nodeType := .compute })]
        [.plain "fix" "check", .plain "check.done" "end"] [("done", "end")]
        (.mount "check" false judge .none)) .none))

def twiceCompiled : CompiledWorkflow :=
  (compileWorkflowDefinition twiceMounted).toOption.get (by decide)

theorem twiceMounted_shapeValid : twiceMounted.ShapeValid := by
  intro scope hscope
  change scope ∈ [_, _, _, _] at hscope
  simp only [List.mem_cons, List.not_mem_nil, or_false] at hscope
  rcases hscope with rfl | rfl | rfl | rfl <;> exact ⟨by decide, by decide, by decide, rfl⟩

theorem twiceMounted_runs : validateWorkflowDefinition twiceCompiled = .ok () :=
  (compileWorkflowDefinition_graph twiceMounted_shapeValid
    (show compileWorkflowDefinition twiceMounted = .ok twiceCompiled from rfl)).2.2.2.2.2.2.2
      (by decide)

/-! ## Where a run may end -/

/-- A node of the root, or an exit of what the root mounts. -/
def IsRootEnd (workflow : AuthoredWorkflow) (id : String) : Prop :=
  id ∈ workflow.nodes.map Prod.fst ∨
    ∃ mount ∈ workflow.includes.mounts, ∃ exit ∈ mount.2.exits, id = exitNodeId mount.1 exit.1

/-- The compiled node has no outgoing edge. -/
def IsTerminal (compiled : CompiledWorkflow) (id : String) : Prop :=
  ∀ edge ∈ compiled.edges, edge.source ≠ id

instance (compiled : CompiledWorkflow) (id : String) : Decidable (IsTerminal compiled id) :=
  inferInstanceAs (Decidable (∀ edge ∈ compiled.edges, edge.source ≠ id))

/-- Every included definition has an edge from each exit of what it mounts itself. -/
def ConnectsExits (workflow : AuthoredWorkflow) : Prop :=
  ∀ scope ∈ workflow.mounted "", scope.1 ≠ "" → ∀ mount ∈ scope.2.includes.mounts,
    ∀ exit ∈ mount.2.exits, mount.1 ++ "." ++ exit.1 ∈ scope.2.edges.map WorkflowEdge.source

instance (workflow : AuthoredWorkflow) : Decidable (ConnectsExits workflow) :=
  inferInstanceAs (Decidable (∀ scope ∈ workflow.mounted "", scope.1 ≠ "" →
    ∀ mount ∈ scope.2.includes.mounts, ∀ exit ∈ mount.2.exits,
      mount.1 ++ "." ++ exit.1 ∈ scope.2.edges.map WorkflowEdge.source))

section

variable {workflow : AuthoredWorkflow} {compiled : CompiledWorkflow}

/-- No two scopes share a path, so a path has one definition. -/
theorem scope_unique (hshape : workflow.ShapeValid) {scope scope' : String × AuthoredWorkflow}
    (h : scope ∈ workflow.mounted "") (h' : scope' ∈ workflow.mounted "")
    (hpath : scope.1 = scope'.1) : scope = scope' :=
  List.inj_on_of_nodup_map (nodup_paths hshape) h h' hpath

theorem CompiledOf.source_mem (hspec : CompiledOf workflow compiled) {source : String}
    {scope : String × AuthoredWorkflow} (hscope : scope ∈ workflow.mounted "")
    (hsource : source ∈ (scopeEdges scope).map WorkflowEdge.source) :
    ∃ edge ∈ compiled.edges, edge.source = source := by
  obtain ⟨edge, hedge, rfl⟩ := List.mem_map.1 hsource
  exact ⟨edge, hspec.edges.mem_iff.2 (List.mem_flatMap.2 ⟨scope, hscope, hedge⟩), rfl⟩

/-- The exit of an include is left exactly along an authored edge of the scope. -/
theorem CompiledOf.exit_terminal (hspec : CompiledOf workflow compiled)
    (hshape : workflow.ShapeValid) {scope : String × AuthoredWorkflow}
    (hscope : scope ∈ workflow.mounted "") {mount : String × AuthoredWorkflow}
    (hmount : mount ∈ scope.2.includes.mounts) {exit : String × String}
    (hexit : exit ∈ mount.2.exits) :
    IsTerminal compiled (exitNodeId (qualify scope.1 mount.1) exit.1) ↔
      mount.1 ++ "." ++ exit.1 ∉ scope.2.edges.map WorkflowEdge.source := by
  have hnames := (hshape _ hscope).names
  have hname := hnames.includes _ (mem_names_of_mounts hmount)
  have hexitName := (hshape.mountedNames hscope _ hmount).exits exit hexit
  have hparsed := parseExitReference_exit hname hexitName
  constructor
  · intro hterminal hmem
    have hqualified : qualifySource scope.1 scope.2 (mount.1 ++ "." ++ exit.1) =
        exitNodeId (qualify scope.1 mount.1) exit.1 := by
      rw [qualifySource, if_neg, hparsed]
      intro hnode
      rw [parseExitReference_name (hnames.nodes _ (hasOwn_iff.1 hnode))] at hparsed
      cases hparsed
    have hsource : exitNodeId (qualify scope.1 mount.1) exit.1 ∈
        (scopeEdges scope).map WorkflowEdge.source := by
      rw [scopeEdges_sources, ← hqualified]
      exact List.mem_append_right _ (List.mem_map_of_mem hmem)
    obtain ⟨edge, hedge, hleaves⟩ := hspec.source_mem hscope hsource
    exact hterminal edge hedge hleaves
  · intro hnot edge hedge hsource
    obtain ⟨other, hother, hedge⟩ := List.mem_flatMap.1 (hspec.edges.mem_iff.1 hedge)
    have hmem := List.mem_map_of_mem (f := WorkflowEdge.source) hedge
    rw [hsource] at hmem
    have hof : SourceOf other.1 _ := sourceOf_scopeEdges (hshape _ hother).names
      (hshape.mountedNames hother) (hspec.valid _ hother) hmem
    obtain rfl := scope_unique hshape hother hscope (hof.path_eq (.exit hname hexitName))
    rw [scopeEdges_sources, List.mem_append] at hmem
    rcases hmem with hgenerated | hauthored
    · obtain ⟨name, hmem, heq⟩ := List.mem_map.1 hgenerated
      exact qualify_ne_exitNodeId
        (mem_generatedSources hnames (hspec.valid _ hother) hmem).1 hexitName heq
    · obtain ⟨source, hmem, heq⟩ := List.mem_map.1 hauthored
      obtain ⟨authored, hfrom, rfl⟩ := List.mem_map.1 hmem
      rcases qualifySource_cases (hshape.mountedNames hother)
        ((hspec.valid _ hother).froms authored hfrom) with ⟨hnode, hqualified⟩ |
        ⟨mount', exitName', hparsed', hmount', hexit', hqualified⟩ <;>
      rw [hqualified] at heq
      · exact qualify_ne_exitNodeId (hnames.nodes _ hnode) hexitName heq
      · obtain ⟨hmounts, rfl⟩ := (exitNodeId_inj (isNodeId_of_authored hexit')
          (isNodeId_of_authored hexitName)).1 heq
        obtain ⟨-, rfl⟩ := (qualify_inj (isNodeId_of_authored (hnames.includes _ hmount'))
          (isNodeId_of_authored hname)).1 hmounts
        rw [parseExitReference_inj hparsed' hparsed] at hmem
        exact hnot hmem

/-- What is no exit of an include: only a node of the root can be terminal. -/
theorem CompiledOf.own_terminal (hspec : CompiledOf workflow compiled)
    (hshape : workflow.ShapeValid) {scope : String × AuthoredWorkflow}
    (hscope : scope ∈ workflow.mounted "") {name : String}
    (hname : name ∈ scope.2.nodes.map Prod.fst ++ scope.2.includes.names)
    (hterminal : IsTerminal compiled (qualify scope.1 name)) : IsRootEnd workflow
      (qualify scope.1 name) := by
  have hnot : qualify scope.1 name ∉ (scopeEdges scope).map WorkflowEdge.source := by
    intro hsource
    obtain ⟨edge, hedge, hleaves⟩ := hspec.source_mem hscope hsource
    exact hterminal edge hedge hleaves
  rw [scopeEdges_sources, List.mem_append, not_or] at hnot
  rcases List.mem_append.1 hname with hnode | hentry
  · by_cases hpath : scope.1 = ""
    · have hroot : (("", workflow) : String × AuthoredWorkflow) ∈ workflow.mounted "" := by
        rw [mounted_eq]
        exact List.mem_cons_self
      obtain rfl := scope_unique hshape hscope hroot hpath
      exact .inl hnode
    · exfalso
      rcases (hspec.valid _ hscope).terminals (decide_eq_true hpath) name hnode with hleft | hexit
      · refine hnot.2 ?_
        have hqualified : qualifySource scope.1 scope.2 name = qualify scope.1 name := by
          rw [qualifySource, if_pos (hasOwn_iff.2 hnode)]
        exact hqualified ▸ List.mem_map_of_mem hleft
      · refine hnot.1 (List.mem_map_of_mem (List.mem_append_right _ ?_))
        rw [if_neg hpath]
        exact hexit
  · exfalso
    refine hnot.1 (List.mem_map_of_mem (List.mem_append_left _ ?_))
    exact hspec.resolved _ hscope ▸ hentry

/-- A run ends at a node of the root or at an exit of what the root mounts, on every walk, exactly
if no included definition leaves an exit of its own includes without an edge. -/
theorem compiled_ends_iff (hshape : workflow.ShapeValid)
    (h : compileWorkflowDefinition workflow = .ok compiled) :
    (∀ id ∈ compiled.nodes.map Prod.fst, IsTerminal compiled id → IsRootEnd workflow id) ↔
      ConnectsExits workflow := by
  have hspec := compiled_mounted hshape h
  constructor
  · intro hends scope hscope hpath mount hmount exit hexit
    by_contra hnot
    have hname := (hshape _ hscope).names.includes _ (mem_names_of_mounts hmount)
    have hexitName := (hshape.mountedNames hscope _ hmount).exits exit hexit
    have hterminal := (hspec.exit_terminal hshape hscope hmount hexit).2 hnot
    have hid : exitNodeId (qualify scope.1 mount.1) exit.1 ∈ compiled.nodes.map Prod.fst := by
      refine (hspec.nodes _).2 ⟨?_, exit_mem_nodeIds (mounted_closed hscope hmount)
        (qualify_ne_empty (isNodeId_of_authored hname)) (List.mem_map_of_mem hexit)⟩
      intro heq
      have hreserved : endsReserved (exitNodeId (qualify scope.1 mount.1) exit.1) = true :=
        endsReserved_exit hexitName
      rw [heq] at hreserved
      exact absurd hreserved (by decide)
    have hroot : (("", workflow) : String × AuthoredWorkflow) ∈ workflow.mounted "" := by
      rw [mounted_eq]
      exact List.mem_cons_self
    rcases hends _ hid hterminal with hnode | ⟨mount', hmount', exit', hexit', heq⟩
    · exact qualify_ne_exitNodeId ((hshape _ hroot).names.nodes _ hnode) hexitName
        (if_pos rfl : qualify "" _ = _)
    · obtain ⟨hpaths, -⟩ := (exitNodeId_inj (isNodeId_of_authored hexitName)
        (isNodeId_of_authored ((hshape.mountedNames hroot _ hmount').exits exit' hexit'))).1 heq
      have hname' := (hshape _ hroot).names.includes _ (mem_names_of_mounts hmount')
      have hqualified : qualify scope.1 mount.1 = qualify "" mount'.1 := hpaths
      exact hpath ((qualify_inj (isNodeId_of_authored hname)
        (isNodeId_of_authored hname')).1 hqualified).1
  · intro hconnects id hid hterminal
    obtain ⟨scope, hscope, hid⟩ := List.mem_flatMap.1 ((hspec.nodes id).1 hid).2
    rw [scopeIds, List.mem_append] at hid
    rcases hid with hown | hexit
    · obtain ⟨name, hname, rfl⟩ := List.mem_map.1 hown
      exact hspec.own_terminal hshape hscope hname hterminal
    · split at hexit
      · cases hexit
      · next hpath =>
          obtain ⟨exit, hmem, rfl⟩ := List.mem_map.1 hexit
          rcases mounted_parent scope hscope with rfl | ⟨parent, hparent, mount, hmount, rfl⟩
          · exact absurd rfl hpath
          · by_cases hroot : parent.1 = ""
            · have hrootMem : (("", workflow) : String × AuthoredWorkflow) ∈
                  workflow.mounted "" := by
                rw [mounted_eq]
                exact List.mem_cons_self
              obtain rfl := scope_unique hshape hparent hrootMem hroot
              exact .inr ⟨mount, hmount, exit, hmem, rfl⟩
            · exact absurd (hconnects parent hparent hroot mount hmount exit hmem)
                ((hspec.exit_terminal hshape hparent hmount hmem).1 hterminal)

end

/-- A child that mounts a child of its own and has no edge from its second exit. -/
def unconnectedExit : AuthoredWorkflow :=
  .mk "root" "start" none false [("start", { nodeType := .compute })] [.plain "start" "child"] []
    (.mount "child" false
      (.mk "child" "begin" none false
        [("begin", { nodeType := .compute }), ("end", { nodeType := .compute })]
        [.plain "begin" "grandchild", .plain "grandchild.ready" "end"] [("done", "end")]
        (.mount "grandchild" false
          (.mk "grandchild" "choose" none false
            [("choose", { nodeType := .compute }), ("ready", { nodeType := .compute }),
              ("blocked", { nodeType := .compute })]
            [.switch "choose" "$.route" [("ready", "ready"), ("blocked", "blocked")]]
            [("ready", "ready"), ("blocked", "blocked")] .none) .none)) .none)

def unconnectedCompiled : CompiledWorkflow :=
  (compileWorkflowDefinition unconnectedExit).toOption.get (by decide)

/-- The walk can end at the exit of the grandchild. -/
theorem unconnectedExit_ends :
    unconnectedExit.ShapeValid ∧
      compileWorkflowDefinition unconnectedExit = .ok unconnectedCompiled ∧
      validateWorkflowDefinition unconnectedCompiled = .ok () ∧
      "child/grandchild/__piw_exit_blocked" ∈ unconnectedCompiled.nodes.map Prod.fst ∧
      IsTerminal unconnectedCompiled "child/grandchild/__piw_exit_blocked" ∧
      ¬ IsRootEnd unconnectedExit "child/grandchild/__piw_exit_blocked" := by
  refine ⟨?_, rfl, rfl, by decide, by decide, ?_⟩
  · intro scope hscope
    change scope ∈ [_, _, _] at hscope
    simp only [List.mem_cons, List.not_mem_nil, or_false] at hscope
    rcases hscope with rfl | rfl | rfl <;> exact ⟨by decide, by decide, by decide, rfl⟩
  · rintro (hnode | ⟨mount, hmount, exit, hexit, heq⟩)
    · exact absurd hnode (by decide)
    · change mount ∈ [_] at hmount
      rw [List.mem_singleton] at hmount
      subst hmount
      change exit ∈ [_] at hexit
      rw [List.mem_singleton] at hexit
      subst hexit
      exact absurd heq (by decide)

theorem twiceMounted_ends :
    ConnectsExits twiceMounted ∧ ∀ id ∈ twiceCompiled.nodes.map Prod.fst,
      IsTerminal twiceCompiled id → IsRootEnd twiceMounted id := by
  have hconnects : ConnectsExits twiceMounted := by decide
  exact ⟨hconnects, (compiled_ends_iff twiceMounted_shapeValid
    (show compileWorkflowDefinition twiceMounted = .ok twiceCompiled from rfl)).2 hconnects⟩

end PiWorkflows
