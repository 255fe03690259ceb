import PiWorkflows.Proofs.EngineRuns
import PiWorkflows.Proofs.MountRegions
import PiWorkflows.Workflows.StepLimits

/-!
# The limits on steps hold in every run

The counter of the loop is never below the number of recorded attempts, and above it by
one while an attempt on an authored node is in flight (`LoopInv.counted`). So what the
checks of a round leave free is still free when its attempt is recorded. A repeated
settings route takes back what its round has counted, which is one because such a route is
a node of an author (`route_notTransition`). A counter that is rebuilt counts what is
recorded.

For a mount, the check looks at the steps since its latest entry. A step that is recorded
belongs to the last of the stretches that entries begin, and the check was about that one.
-/

namespace PiWorkflows

open Fallible

/-! ## Settings routes are authored -/

/-- Only nodes of these scopes are settings routes. -/
def RoutesAuthored (scopes : List (String × AuthoredWorkflow)) (acc : Compilation) : Prop :=
  ∀ id node, acc.nodes.lookup id = some node → node.settingsRoute = true →
    ∃ scope ∈ scopes, ∃ name ∈ scope.2.nodes.map Prod.fst, id = qualify scope.1 name

section

variable {scopes : List (String × AuthoredWorkflow)} {acc : Compilation}

theorem RoutesAuthored.mountScope (h : RoutesAuthored scopes acc) {workflow : AuthoredWorkflow}
    {path : String} (hscope : (path, workflow) ∈ scopes) :
    RoutesAuthored scopes (mountScope workflow path acc) := by
  have hfold : ∀ (nodes : List (String × AuthoredNode)) (record : List (String × AuthoredNode)),
      (∀ node ∈ nodes, node ∈ workflow.nodes) →
      (∀ id node, record.lookup id = some node → node.settingsRoute = true →
        ∃ scope ∈ scopes, ∃ name ∈ scope.2.nodes.map Prod.fst, id = qualify scope.1 name) →
      ∀ id node, (nodes.foldl (fun nodes node =>
        assignMember (qualify path node.1) node.2 nodes) record).lookup id = some node →
        node.settingsRoute = true →
        ∃ scope ∈ scopes, ∃ name ∈ scope.2.nodes.map Prod.fst, id = qualify scope.1 name := by
    intro nodes
    induction nodes with
    | nil => exact fun record _ hrecord => hrecord
    | cons first rest ih =>
        intro record hnodes hrecord
        refine ih _ (fun node hnode => hnodes node (List.mem_cons_of_mem _ hnode)) ?_
        intro id node hlookup hroute
        rcases lookup_assignMember_some hlookup with ⟨rfl, -⟩ | hbefore
        · exact ⟨_, hscope, first.1, List.mem_map_of_mem (hnodes first List.mem_cons_self), rfl⟩
        · exact hrecord id node hbefore hroute
  exact hfold workflow.nodes acc.nodes (fun _ hnode => hnode) h

/-- A generated node is none. -/
theorem RoutesAuthored.generated (h : RoutesAuthored scopes acc) {key : String}
    {generated : AuthoredNode} (hplain : generated.settingsRoute = false) :
    ∀ id node, (assignMember key generated acc.nodes).lookup id = some node →
      node.settingsRoute = true →
      ∃ scope ∈ scopes, ∃ name ∈ scope.2.nodes.map Prod.fst, id = qualify scope.1 name := by
  intro id node hlookup hroute
  rcases lookup_assignMember_some hlookup with ⟨-, rfl⟩ | hbefore
  · rw [hplain] at hroute
    cases hroute
  · exact h id node hbefore hroute

theorem RoutesAuthored.mountExits (child : AuthoredWorkflow) (path name : String)
    (exits : List (String × String)) (h : RoutesAuthored scopes acc) :
    RoutesAuthored scopes (exits.foldl (mountExit child path name) acc) := by
  induction exits generalizing acc with
  | nil => exact h
  | cons exit rest ih =>
      refine ih ?_
      exact h.generated rfl

theorem RoutesAuthored.mountEdges {workflow : AuthoredWorkflow} {path : String}
    {acc' : Compilation} (h : RoutesAuthored scopes acc)
    (hedges : mountEdges workflow path acc = .ok acc') : RoutesAuthored scopes acc' := by
  simp only [PiWorkflows.mountEdges, bind_ok, pure_ok] at hedges
  obtain ⟨_, _, rfl⟩ := hedges
  exact h

end

mutual

theorem mountWorkflow_routes {scopes : List (String × AuthoredWorkflow)}
    {current : AuthoredWorkflow} {path : String} {acc acc' : Compilation}
    (hscopes : ∀ scope ∈ current.mounted path, scope ∈ scopes) (h : RoutesAuthored scopes acc)
    (hmount : mountWorkflow current path acc = .ok acc') : RoutesAuthored scopes acc' := by
  rw [mounted_eq] at hscopes
  obtain ⟨hown, hscopes⟩ := List.forall_mem_cons.1 hscopes
  match current with
  | .mk name startAt maxSteps settings nodes edges exits includes =>
      simp only [mountWorkflow, bind_ok] at hmount
      obtain ⟨_, _, mounted, hmounted, hedges⟩ := hmount
      exact (mountIncludes_routes hscopes (h.mountScope hown) hmounted).mountEdges hedges

theorem mountIncludes_routes {scopes : List (String × AuthoredWorkflow)}
    {includes : AuthoredIncludes} {path : String} {acc acc' : Compilation}
    (hscopes : ∀ scope ∈ includes.mounted path, scope ∈ scopes) (h : RoutesAuthored scopes acc)
    (hmount : mountIncludes includes path acc = .ok acc') : RoutesAuthored scopes acc' := by
  match includes with
  | .none =>
      rw [mountIncludes] at hmount
      cases hmount
      exact h
  | .unresolved _ _ _ =>
      rw [mountIncludes] at hmount
      cases hmount
  | .mount name mapsSettings child rest =>
      simp only [mountIncludes, bind_ok] at hmount
      obtain ⟨_, _, mounted, hmounted, hrest⟩ := hmount
      rw [AuthoredIncludes.mounted, List.forall_mem_append] at hscopes
      have hentered : RoutesAuthored scopes (mountEntry child path name mapsSettings acc) :=
        h.generated rfl
      refine mountIncludes_routes hscopes.2 (mountWorkflow_routes hscopes.1 ?_ hmounted) hrest
      exact hentered.mountExits child path name child.exits

end

/-- A settings route is no generated node. -/
theorem Composed.route_notTransition {workflow : AuthoredWorkflow} {compiled : ExecutableWorkflow}
    (hof : Composed workflow compiled) {id : String} {node : AuthoredNode}
    (hnode : compiled.nodes.lookup id = some node) (hroute : node.settingsRoute = true) :
    isTransition compiled.toCompiledWorkflow id = false := by
  have hcompile := hof.compiles
  simp only [compileWorkflowDefinition, bind_ok, pure_ok] at hcompile
  obtain ⟨_, -, acc, hmounted, heq⟩ := hcompile
  have hempty : RoutesAuthored (workflow.mounted "") {} := fun _ _ h => by cases h
  have hroutes := mountWorkflow_routes (fun _ hscope => hscope) hempty hmounted
  rw [← heq] at hnode
  obtain ⟨⟨path, current⟩, hscope, name, hname, rfl⟩ := hroutes id node hnode hroute
  have hauthored := (hof.shape _ hscope).names.nodes name hname
  rw [isTransition, Bool.or_eq_false_iff, hasOwn, hasOwn, Option.isSome_eq_false_iff,
    Option.isSome_eq_false_iff, Option.isNone_iff_eq_none, Option.isNone_iff_eq_none,
    Option.eq_none_iff_forall_ne_some, Option.eq_none_iff_forall_ne_some]
  refine ⟨fun entry hentry => ?_, fun exit hexit => ?_⟩
  · obtain ⟨m, hm, heq'⟩ := hof.entry_iff.1 hentry
    exact hof.node_ne_mount hscope hname hm (Prod.mk.inj heq').1
  · obtain ⟨m, hm, declared, hdeclared, heq'⟩ := hof.exit_iff.1 hexit
    have hends : endsReserved (exitNodeId m.path declared.1) = true :=
      endsReserved_exit (hof.exitName hm hdeclared)
    have hid : qualify path name = exitNodeId m.path declared.1 := (Prod.mk.inj heq').1
    rw [← hid, endsReserved_entry hauthored] at hends
    cases hends

/-! ## Stretches between entries -/

section

variable {workflow : CompiledWorkflow} {path : String} {limit : Nat} {steps : List StepRecord}

theorem countExecutableSteps_append (first second : List StepRecord) :
    countExecutableSteps workflow (first ++ second) =
      countExecutableSteps workflow first + countExecutableSteps workflow second := by
  simp [countExecutableSteps]

theorem countAttemptsBelow_append (first second : List StepRecord) :
    countAttemptsBelow workflow path (first ++ second) =
      countAttemptsBelow workflow path first + countAttemptsBelow workflow path second := by
  simp [countAttemptsBelow]

/-- The counts are about the ids of the nodes. -/
theorem countExecutableSteps_ids (steps : List StepRecord) :
    countExecutableSteps workflow steps =
      ((steps.map StepRecord.nodeId).filter fun id => !isTransition workflow id).length := by
  rw [countExecutableSteps, List.filter_map, List.length_map]
  rfl

theorem countAttemptsBelow_ids (steps : List StepRecord) :
    countAttemptsBelow workflow path steps =
      ((steps.map StepRecord.nodeId).filter fun id =>
        isBelow path id && !isTransition workflow id).length := by
  rw [countAttemptsBelow, List.filter_map, List.length_map]
  rfl

/-- Behind no entry of the mount are more attempts than the limit before the next one. -/
def InvocationsWithin (workflow : CompiledWorkflow) (path : String) (limit : Nat)
    (steps : List StepRecord) : Prop :=
  ∀ before entry attempts after, steps = before ++ entry :: (attempts ++ after) →
    entry.nodeId = path → (∀ step ∈ attempts, step.nodeId ≠ path) →
      countAttemptsBelow workflow path attempts ≤ limit

theorem stepsSinceEntry_append {before attempts : List StepRecord} {entry : StepRecord}
    (hentry : entry.nodeId = path) (hattempts : ∀ step ∈ attempts, step.nodeId ≠ path) :
    stepsSinceEntry path (before ++ entry :: attempts) = some attempts := by
  have htake : (before ++ entry :: attempts).reverse.takeWhile
      (fun step => decide (step.nodeId ≠ path)) = attempts.reverse := by
    rw [List.reverse_append, List.reverse_cons, List.append_assoc,
      List.takeWhile_append_of_pos fun step hstep => by
        simpa using hattempts step (List.mem_reverse.1 hstep)]
    simp [hentry]
  have hlength : attempts.length ≠ (before ++ entry :: attempts).length := by
    rw [List.length_append, List.length_cons]
    omega
  rw [stepsSinceEntry, htake]
  simp only [List.reverse_reverse, if_neg hlength]

/-- A step that is recorded behind a check of the mount, or is not counted. -/
theorem InvocationsWithin.concat (h : InvocationsWithin workflow path limit steps)
    {step : StepRecord}
    (hstep : isBelow path step.nodeId = true → isTransition workflow step.nodeId = false →
      ∀ since, stepsSinceEntry path steps = some since →
        countAttemptsBelow workflow path since < limit) :
    InvocationsWithin workflow path limit (steps ++ [step]) := by
  intro before entry attempts after heq hentry hattempts
  rcases List.eq_nil_or_concat after with rfl | ⟨after', last, rfl⟩
  · rcases List.eq_nil_or_concat attempts with rfl | ⟨earlier, last, rfl⟩
    · exact Nat.zero_le _
    · rw [List.concat_eq_append, List.append_nil] at heq
      have hsplit : before ++ entry :: (earlier ++ [last]) = (before ++ entry :: earlier) ++ [last] := by
        rw [List.append_assoc, List.cons_append]
      rw [hsplit] at heq
      obtain ⟨rfl, hlast⟩ := List.append_inj' heq rfl
      obtain rfl := (List.cons.inj hlast).1
      rw [List.concat_eq_append] at hattempts ⊢
      have hearlier := fun s hs => hattempts s (List.mem_append_left _ hs)
      have hbefore := h before entry earlier [] (by rw [List.append_nil]) hentry hearlier
      rw [countAttemptsBelow_append]
      by_cases hcounted : isBelow path step.nodeId = true ∧ isTransition workflow step.nodeId = false
      · have hfree := hstep hcounted.1 hcounted.2 earlier (stepsSinceEntry_append hentry hearlier)
        have hone : countAttemptsBelow workflow path [step] ≤ 1 := by
          rw [countAttemptsBelow]
          exact List.length_filter_le _ _
        omega
      · have hnone : countAttemptsBelow workflow path [step] = 0 := by
          rw [countAttemptsBelow, List.length_eq_zero_iff, List.filter_eq_nil_iff]
          intro s hs
          rw [List.mem_singleton.1 hs]
          simpa using hcounted
        omega
  · have hsplit : before ++ entry :: (attempts ++ after'.concat last) =
        (before ++ entry :: (attempts ++ after')) ++ [last] := by simp
    rw [hsplit] at heq
    obtain ⟨hsteps, -⟩ := List.append_inj' heq rfl
    exact h before entry attempts after' hsteps hentry hattempts

/-- What is read back of the steps has the same ids. -/
theorem InvocationsWithin.of_ids (h : InvocationsWithin workflow path limit steps)
    {steps' : List StepRecord}
    (hids : steps'.map StepRecord.nodeId = steps.map StepRecord.nodeId) :
    InvocationsWithin workflow path limit steps' := by
  intro before' entry' attempts' after' heq hentry hattempts
  rw [heq, List.map_append, List.map_cons, List.map_append] at hids
  obtain ⟨before, rest, rfl, hbefore, hrest⟩ := List.map_eq_append_iff.1 hids.symm
  obtain ⟨entry, rest', rfl, hentry', hrest'⟩ := List.map_eq_cons_iff.1 hrest
  obtain ⟨attempts, after, rfl, hattempts', -⟩ := List.map_eq_append_iff.1 hrest'
  rw [countAttemptsBelow_ids, ← hattempts', ← countAttemptsBelow_ids]
  refine h before entry attempts after rfl (hentry'.trans hentry) fun step hstep => ?_
  have hmem : step.nodeId ∈ attempts'.map StepRecord.nodeId := by
    rw [← hattempts']
    exact List.mem_map_of_mem hstep
  obtain ⟨step', hstep', hid⟩ := List.mem_map.1 hmem
  rw [← hid]
  exact hattempts step' hstep'

end

/-! ## The checks of a round -/

section

variable {workflow : CompiledWorkflow} {nodeId : String} {steps : List StepRecord}

/-- A check that passed has found room in every mount around the node. -/
theorem assertInvocationStepLimit_ok
    (h : assertInvocationStepLimit workflow nodeId steps = .ok .unit) {scope : ScopeMetadata}
    (hscope : scope ∈ workflow.scopes.map Prod.snd) (hpath : scope.path ≠ "")
    (hbelow : isBelow scope.path nodeId = true) {limit : Nat} (hlimit : scope.maxSteps = some limit)
    {since : List StepRecord} (hsince : stepsSinceEntry scope.path steps = some since) :
    countAttemptsBelow workflow scope.path since < limit := by
  obtain ⟨entry, hentry, rfl⟩ := List.mem_map.1 hscope
  have hmem : (entry.2, limit) ∈ limitedScopes workflow nodeId := by
    rw [limitedScopes, List.mem_insertionSort]
    refine List.mem_filterMap.2 ⟨entry, hentry, ?_⟩
    rw [if_pos ⟨hpath, hbelow⟩, hlimit, Option.map_some]
  simp only [assertInvocationStepLimit, bind_ok] at h
  obtain ⟨checked, hchecked, -⟩ := h
  obtain ⟨_, -, hok⟩ := ok_of_mapM hchecked _ hmem
  simp only [assertScopeLimit, bind_ok, orThrow_ok, require_ok] at hok
  obtain ⟨found, hfound, hroom⟩ := hok
  obtain rfl := Option.some.inj (hfound.symm.trans hsince)
  exact hroom

end

namespace GraphLoop

section

variable {workflow : AuthoredWorkflow} {compiled : ExecutableWorkflow} {maxSteps : Nat}
  {sha256 : String → String} {dateParse : String → Option Int} {toISOString : Int → String}
  {loop loop' : GraphLoop}

/-- One while an attempt on an authored node is in flight. -/
def pending (compiled : ExecutableWorkflow) (loop : GraphLoop) : Nat :=
  if loop.running = true ∧ loop.execution.state.currentNode.any (fun id =>
    !isTransition compiled.toCompiledWorkflow id) = true then 1 else 0

/-- What a loop keeps. -/
structure LoopInv (compiled : ExecutableWorkflow) (maxSteps : Nat) (loop : GraphLoop) : Prop where
  counted : ((countExecutableSteps compiled.toCompiledWorkflow loop.execution.state.steps +
    loop.pending compiled : Nat) : Int) ≤ loop.executedSteps
  limit : loop.executedSteps ≤ rootLimit compiled maxSteps
  checked : loop.running = true → ∀ id, loop.execution.state.currentNode = some id →
    isTransition compiled.toCompiledWorkflow id = false →
      assertInvocationStepLimit compiled.toCompiledWorkflow id loop.execution.state.steps = .ok .unit
  mounts : ∀ scope ∈ compiled.scopes.map Prod.snd, scope.path ≠ "" →
    ∀ limit, scope.maxSteps = some limit →
      InvocationsWithin compiled.toCompiledWorkflow scope.path limit loop.execution.state.steps

theorem pending_of_idle (h : loop.running = false) : loop.pending compiled = 0 := by
  rw [pending, h, if_neg fun hboth => Bool.false_ne_true hboth.1]

/-- A loop that stands still, over steps that are counted. -/
theorem LoopInv.idle (h : LoopInv compiled maxSteps loop)
    (hsteps : loop'.execution.state.steps = loop.execution.state.steps)
    (hexecuted : (countExecutableSteps compiled.toCompiledWorkflow loop.execution.state.steps : Int) ≤
      loop'.executedSteps) (hlimit : loop'.executedSteps ≤ loop.executedSteps)
    (hidle : loop'.running = false) : LoopInv compiled maxSteps loop' where
  counted := by
    rw [hsteps, pending_of_idle hidle, Nat.add_zero]
    exact hexecuted
  limit := hlimit.trans h.limit
  checked hrunning := by
    rw [hidle] at hrunning
    cases hrunning
  mounts := by
    rw [hsteps]
    exact h.mounts

theorem LoopInv.counted_steps (h : LoopInv compiled maxSteps loop) :
    (countExecutableSteps compiled.toCompiledWorkflow loop.execution.state.steps : Int) ≤
      loop.executedSteps := by
  have hcounted := h.counted
  omega

theorem LoopInv.stop (h : LoopInv compiled maxSteps loop) (message : String) :
    LoopInv compiled maxSteps (loop.stop message) :=
  h.idle rfl h.counted_steps le_rfl rfl

theorem LoopInv.fresh (compiled : ExecutableWorkflow) (maxSteps : Nat) (runId : String)
    (input : Json) :
    LoopInv compiled maxSteps (GraphLoop.fresh compiled.toCompiledWorkflow runId input) where
  counted := le_rfl
  limit := Int.natCast_nonneg _
  checked hrunning := by cases hrunning
  mounts scope hscope hpath limit hlimit before entry attempts after heq := by
    have hnil : ([] : List StepRecord) = before ++ entry :: (attempts ++ after) := heq
    simp at hnil

/-- What the checks of a round say about the counter and the mounts. -/
theorem countStep_ok {nodeId : String} {executedSteps : Int}
    (h : countStep compiled maxSteps loop nodeId = .ok executedSteps) :
    (isTransition compiled.toCompiledWorkflow nodeId = true ∧ executedSteps = loop.executedSteps) ∨
      (isTransition compiled.toCompiledWorkflow nodeId = false ∧
        executedSteps = loop.executedSteps + 1 ∧ executedSteps ≤ rootLimit compiled maxSteps ∧
        assertInvocationStepLimit compiled.toCompiledWorkflow nodeId loop.execution.state.steps =
          .ok .unit) := by
  rw [countStep] at h
  split at h
  · next htransition =>
      cases h
      exact .inl ⟨htransition, rfl⟩
  · next hauthored =>
      simp only [bind_ok, require_ok, pure_ok] at h
      obtain ⟨_, hlimit, _, hchecked, rfl⟩ := h
      exact .inr ⟨by simpa using hauthored, rfl, hlimit, hchecked⟩

theorem LoopInv.start (h : LoopInv compiled maxSteps loop) {attemptId startedAt : String}
    {settings : Option SettingsBinding}
    (hstart : start compiled maxSteps loop attemptId startedAt settings = .ok loop') :
    LoopInv compiled maxSteps loop' := by
  simp only [GraphLoop.start, bind_ok, require_ok] at hstart
  obtain ⟨_, -, hstart⟩ := hstart
  split at hstart
  · next nodeId hnext =>
      split at hstart
      · next message hlimits =>
          rw [pure_ok] at hstart
          exact hstart ▸ h.stop message
      · next executedSteps hcount =>
          simp only [beginAttempt, bind_ok, pure_ok] at hstart
          obtain ⟨execution, hbegun, rfl⟩ := hstart
          obtain ⟨hsteps, -, -, hcurrent, -⟩ := startNode_ok hbegun
          rw [Execution.node?_some.2 hnext] at hcurrent
          have hcounted := h.counted_steps
          rcases countStep_ok hcount with ⟨htransition, rfl⟩ | ⟨hauthored, rfl, hlimit, hchecked⟩
          · refine ⟨?_, h.limit, fun _ id hid hnot => ?_, ?_⟩
            · have hnone : pending compiled { loop with
                  execution, resumedAttempt := none, running := true } = 0 := by
                rw [pending, if_neg]
                rintro ⟨-, hboth⟩
                rw [hcurrent, Option.any_some, htransition] at hboth
                cases hboth
              rw [hsteps, hnone]
              exact hcounted
            · rw [hcurrent] at hid
              cases hid
              rw [htransition] at hnot
              cases hnot
            · rw [hsteps]
              exact h.mounts
          · refine ⟨?_, hlimit, fun _ id hid _ => ?_, ?_⟩
            · have hone : pending compiled { loop with
                  execution, executedSteps := loop.executedSteps + 1
                  resumedAttempt := none, running := true } ≤ 1 := by
                rw [pending]
                split <;> omega
              rw [hsteps]
              dsimp only
              omega
            · rw [hcurrent] at hid
              cases hid
              rw [hsteps]
              exact hchecked
            · rw [hsteps]
              exact h.mounts
  · cases hstart

/-- A repeated settings route takes back what its round has counted. -/
theorem LoopInv.retry (hof : Composed workflow compiled) (h : LoopInv compiled maxSteps loop)
    (hrunning : loop.running = true) {nodeId : String}
    (hnode : loop.execution.state.currentNode = some nodeId)
    (hrepeatable : isRepeatable compiled loop nodeId = true) (latest : Option SettingsBinding) :
    LoopInv compiled maxSteps (retrySettingsRoute loop nodeId latest) := by
  rw [isRepeatable, Bool.and_eq_true, Option.any_eq_true] at hrepeatable
  obtain ⟨⟨node, hlookup, hroute⟩, -⟩ := hrepeatable
  rw [Bool.and_eq_true] at hroute
  have hauthored := hof.route_notTransition hlookup hroute.2
  have hone : pending compiled loop = 1 := by
    rw [pending, if_pos]
    refine ⟨hrunning, ?_⟩
    rw [hnode, Option.any_some, hauthored]
    rfl
  have hcounted := h.counted
  rw [hone] at hcounted
  simp only [retrySettingsRoute]
  split
  · exact h.stop _
  · split
    · exact h.stop _
    · refine h.idle rfl ?_ ?_ rfl
      · show _ ≤ loop.executedSteps - 1
        omega
      · show loop.executedSteps - 1 ≤ loop.executedSteps
        omega

theorem LoopInv.finish (hof : Composed workflow compiled) (h : LoopInv compiled maxSteps loop)
    {run : NodeRun} {finishedAt : String} {commit : AttemptCommit}
    (hfinish : finish dateParse compiled loop run finishedAt commit = .ok loop') :
    LoopInv compiled maxSteps loop' := by
  simp only [GraphLoop.finish, bind_ok, require_ok, orThrow_ok] at hfinish
  obtain ⟨_, hrunning, nodeId, hnode, execution, hrecorded, hfinish⟩ := hfinish
  cases commit with
  | failed message =>
      rw [pure_ok] at hfinish
      exact hfinish ▸ h.stop message
  | stale latest =>
      dsimp only at hfinish
      split at hfinish
      · next hrepeatable =>
          rw [pure_ok] at hfinish
          exact hfinish ▸ h.retry hof hrunning hnode hrepeatable latest
      · rw [pure_ok] at hfinish
        exact hfinish ▸ h.stop _
  | committed =>
      rw [pure_ok] at hfinish
      obtain ⟨a, hcurrent, -, hstate, -⟩ := finishNode_ok hrecorded
      obtain rfl := Option.some.inj (hcurrent.symm.trans hnode)
      have hsteps : execution.state.steps =
          loop.execution.state.steps ++ [stepOfAttempt (a.attempt dateParse)] := by
        rw [hstate]
        rfl
      have hid : (stepOfAttempt (a.attempt dateParse)).nodeId = a.nodeId := attempt_nodeId dateParse a
      rw [← hfinish]
      refine ⟨?_, h.limit, fun hidle => (by cases hidle), fun scope hscope hpath limit hlimit => ?_⟩
      · have hone : countExecutableSteps compiled.toCompiledWorkflow
            [stepOfAttempt (a.attempt dateParse)] = pending compiled loop := by
          rw [pending, hrunning, hnode, Option.any_some, countExecutableSteps, List.filter_singleton,
            hid]
          cases isTransition compiled.toCompiledWorkflow a.nodeId <;> rfl
        have hcounted := h.counted
        rw [← hone, ← countExecutableSteps_append, ← hsteps] at hcounted
        rw [pending_of_idle rfl]
        exact hcounted
      · rw [hsteps]
        refine (h.mounts scope hscope hpath limit hlimit).concat fun hbelow hauthored since hsince => ?_
        rw [hid] at hbelow hauthored
        exact assertInvocationStepLimit_ok (h.checked hrunning _ hnode hauthored) hscope hpath hbelow
          hlimit hsince

theorem LoopInv.resume (h : LoopInv compiled maxSteps loop)
    {entries : StepRecord → AttemptEntries} {keepsAttempt : Bool}
    (hresume : resume sha256 dateParse toISOString compiled loop entries keepsAttempt = .ok loop') :
    LoopInv compiled maxSteps loop' := by
  simp only [GraphLoop.resume, bind_ok, pure_ok] at hresume
  obtain ⟨execution, hread, rfl⟩ := hresume
  have hids : execution.state.steps.map StepRecord.nodeId =
      loop.execution.state.steps.map StepRecord.nodeId := by
    have hsame := ((resumeRun_ok hread).1.imp fun _ _ h => h.nodeId).flip
    rw [← List.forall₂_eq_eq_eq, List.forall₂_map_left_iff, List.forall₂_map_right_iff]
    exact hsame.imp fun _ _ h => h
  have hcount : countExecutableSteps compiled.toCompiledWorkflow execution.state.steps =
      countExecutableSteps compiled.toCompiledWorkflow loop.execution.state.steps := by
    rw [countExecutableSteps_ids, countExecutableSteps_ids, hids]
  refine ⟨?_, ?_, fun hidle => (by cases hidle), fun scope hscope hpath limit hlimit => ?_⟩
  · rw [pending_of_idle rfl]
    exact le_rfl
  · dsimp only
    rw [hcount]
    exact h.counted_steps.trans h.limit
  · exact (h.mounts scope hscope hpath limit hlimit).of_ids hids

theorem LoopInv.step (hof : Composed workflow compiled) (h : LoopInv compiled maxSteps loop)
    {action : LoopAction}
    (hstep : step sha256 dateParse toISOString compiled maxSteps loop action = .ok loop') :
    LoopInv compiled maxSteps loop' := by
  cases action with
  | pause =>
      simp only [GraphLoop.step, setPaused, bind_ok, require_ok, pure_ok] at hstep
      obtain ⟨_, hidle, rfl⟩ := hstep
      exact h.idle rfl h.counted_steps le_rfl hidle
  | unpause =>
      simp only [GraphLoop.step, setPaused, bind_ok, require_ok, pure_ok] at hstep
      obtain ⟨_, hidle, rfl⟩ := hstep
      exact h.idle rfl h.counted_steps le_rfl hidle
  | start attemptId startedAt settings => exact h.start hstep
  | finish run finishedAt commit => exact h.finish hof hstep
  | resume entries keepsAttempt => exact h.resume hstep

end

/-- In every run, over any number of processes, no more attempts are recorded on authored nodes
than the root allows, and none of the invocations of a mount that declares a limit has more. -/
theorem recordedAttempts_limited {workflow : AuthoredWorkflow} {compiled : ExecutableWorkflow}
    (hof : Composed workflow compiled) (sha256 : String → String) (dateParse : String → Option Int)
    (toISOString : Int → String) (maxSteps : Nat) (runId : String) (input : Json)
    (actions : List LoopAction) :
    let steps := ((GraphLoop.fresh compiled.toCompiledWorkflow runId input).run sha256 dateParse
      toISOString compiled maxSteps actions).execution.state.steps
    countExecutableSteps compiled.toCompiledWorkflow steps ≤ rootLimit compiled maxSteps ∧
      ∀ scope ∈ compiled.scopes.map Prod.snd, scope.path ≠ "" →
        ∀ limit, scope.maxSteps = some limit →
          InvocationsWithin compiled.toCompiledWorkflow scope.path limit steps := by
  have hinv : LoopInv compiled maxSteps ((GraphLoop.fresh compiled.toCompiledWorkflow runId
      input).run sha256 dateParse toISOString compiled maxSteps actions) := by
    refine Trace.served_invariant ?_ (LoopInv.fresh compiled maxSteps runId input) actions
    intro loop action loop' hloop hstep
    exact hloop.step hof hstep
  have hcounted := hinv.counted_steps.trans hinv.limit
  exact ⟨by exact_mod_cast hcounted, hinv.mounts⟩

/-! ## A child that never leaves -/

/-- The child goes on looking, as long as it may. -/
def auditWorkflow : AuthoredWorkflow :=
  .mk "audit" "draft" none false [("draft", { nodeType := .compute })]
    [.plain "draft" "check"] []
    (.mount "check" false
      (.mk "check" "look" (some 2) false
        [("look", { nodeType := .compute }), ("settle", { nodeType := .compute })]
        [.switch "look" "$result.outcome" [("ok", "look"), ("failed", "settle")]]
        [("done", "settle")] .none) .none)

def auditCompiled : ExecutableWorkflow where
  toCompiledWorkflow := (compileWorkflowDefinition auditWorkflow).toOption.get (by decide)
  valid := rfl

theorem auditComposed : Composed auditWorkflow auditCompiled where
  shape := by
    intro scope hscope
    change scope ∈ [_, _] at hscope
    simp only [List.mem_cons, List.not_mem_nil, or_false] at hscope
    rcases hscope with rfl | rfl <;> exact ⟨by decide, by decide, by decide, rfl⟩
  compiles := rfl

/-- Another process takes the run over before the third look. -/
def auditActions : List LoopAction :=
  let at0 := "1970-01-01T00:00:00.000Z"
  [.start "a1" at0 none, .finish (.authored (.returned (.str "draft") {})) at0 .committed,
    .start "a2" at0 none, .finish (.entered {}) at0 .committed,
    .start "a3" at0 none, .finish (.authored (.returned .null {})) at0 .committed,
    .start "a4" at0 none, .finish (.authored (.returned .null {})) at0 .committed,
    .resume (fun _ => {}) true, .start "a5" at0 none]

def auditRun : GraphLoop :=
  (GraphLoop.fresh auditCompiled.toCompiledWorkflow "r" .null).run id (fun _ => some 0)
    (fun _ => "") auditCompiled 100 auditActions

/-- The third look is refused, and the run stays within the limits. -/
theorem auditRun_limited :
    auditRun.execution.state.steps.map StepRecord.nodeId =
        ["draft", "check", "check/look", "check/look"] ∧
      auditRun.execution.next = .error "Included workflow check at check exceeded maxSteps=2" ∧
      countExecutableSteps auditCompiled.toCompiledWorkflow auditRun.execution.state.steps ≤
        rootLimit auditCompiled 100 ∧
      ∀ scope ∈ auditCompiled.scopes.map Prod.snd, scope.path ≠ "" →
        ∀ limit, scope.maxSteps = some limit →
          InvocationsWithin auditCompiled.toCompiledWorkflow scope.path limit
            auditRun.execution.state.steps :=
  ⟨by decide +kernel, rfl,
    recordedAttempts_limited auditComposed id (fun _ => some 0) (fun _ => "") 100 "r" .null
      auditActions⟩

end GraphLoop

end PiWorkflows
