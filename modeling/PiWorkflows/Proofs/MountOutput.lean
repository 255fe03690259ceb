import PiWorkflows.Proofs.LocalContext

/-!
# What a parent sees of a mount

The mount path is the id of the entry node and the key under which exits leave
their record, so which of the two a parent sees depends on who has written last.
When a callback of the parent is about to run, the run does not stand inside the
mount. It has been in there and left, through an exit, since the entry was
written (`Region.stays`). So the parent sees the record of that exit, if the exit
has written one.

An exit that fails has not, and the graph may go on from it: an edge that switches
on the outcome leads from a failed exit into the parent. There the parent is shown
what the entry node has kept (`failedExit_shown`). This is the only way: where no
failed exit was routed on, what is shown is an exit record of the latest
invocation (`exposedMount_exited`).
-/

namespace PiWorkflows

open Fallible

section

variable {α : Type} {record exposed : List (String × α)} {names : List (String × String)}

/-- What is exposed comes out of the record. -/
theorem exposed_lookup {name : String} {value : α}
    (h : (names.foldl (exposeMember record) exposed).lookup name = some value) :
    exposed.lookup name = some value ∨
      ∃ n ∈ names, n.1 = name ∧ record.lookup n.2 = some value := by
  induction names generalizing exposed with
  | nil => exact .inl h
  | cons n rest ih =>
      rcases ih h with hbefore | ⟨n', hn', hfound⟩
      · rw [exposeMember] at hbefore
        split at hbefore
        · next found hfound =>
            rcases lookup_assignMember_some hbefore with ⟨rfl, rfl⟩ | hold
            · exact .inr ⟨n, List.mem_cons_self, rfl, hfound⟩
            · exact .inl hold
        · exact .inl hbefore
      · exact .inr ⟨n', List.mem_cons_of_mem n hn', hfound⟩

end

section

variable {dateParse : String → Option Int} {workflow : AuthoredWorkflow}
  {compiled : ExecutableWorkflow} {e : Execution} {node path name mountPath : String}
  {scope : ScopeMetadata} {m : Mounting}

/-- A node whose callbacks see a scope stands in it, or at an entry or an exit of it. -/
theorem Composed.contextScope_some (hof : Composed workflow compiled)
    (h : contextScope compiled.toCompiledWorkflow node = some path) :
    ∃ local', isNodeId local' = true ∧ node = qualify path local' := by
  rw [contextScope] at h
  split at h
  · next _ _ entry hentry =>
      obtain ⟨m, hm, heq⟩ := hof.entry_iff.1 hentry
      obtain ⟨rfl, rfl⟩ := Prod.mk.inj heq
      obtain rfl := Option.some.inj h
      exact ⟨m.name, isNodeId_of_authored (hof.mounting hm).name, rfl⟩
  · next _ _ exit _ hexit =>
      obtain ⟨m, hm, declared, hdeclared, heq⟩ := hof.exit_iff.1 hexit
      obtain ⟨rfl, rfl⟩ := Prod.mk.inj heq
      obtain rfl := Option.some.inj h
      exact ⟨_, isNodeId_exit (isNodeId_of_authored (hof.exitName hm hdeclared)), rfl⟩
  · obtain ⟨found, hfound, rfl⟩ := Option.map_eq_some_iff.1 h
    have hmem := List.mem_of_find?_eq_some hfound
    have hnode := List.find?_some hfound
    rw [decide_eq_true_eq] at hnode
    rw [hof.records.1, List.map_map] at hmem
    obtain ⟨⟨path, current⟩, hcurrent, rfl⟩ := List.mem_map.1 hmem
    obtain ⟨_, hpair, rfl⟩ := List.mem_map.1 hnode
    obtain ⟨authored, hauthored, rfl⟩ := List.mem_map.1 hpair
    refine ⟨authored.1, isNodeId_of_authored ?_, rfl⟩
    exact (hof.shape _ hcurrent).names.nodes _ (List.mem_map_of_mem hauthored)

/-- A node beside a mount, or its entry, is not behind the entry. -/
theorem Composed.beside_mount (hof : Composed workflow compiled)
    (hm : m ∈ workflow.mountings "") (hname : isNodeId name = true)
    (hinside : qualify m.parentPath name ∈ m.inside) : qualify m.parentPath name = m.path := by
  have hbelow : pathSegments m.path <+: pathSegments (qualify m.parentPath name) := hinside
  have hlength : (pathSegments m.path).length =
      (pathSegments (qualify m.parentPath name)).length := by
    rw [Mounting.path, pathSegments_qualify _ (isNodeId_of_authored (hof.mounting hm).name),
      pathSegments_qualify _ hname, List.length_append, List.length_append]
    rfl
  exact (pathSegments_injective (hbelow.eq_of_length hlength)).symm

/-- A run that does not start inside a mount has entered it to be in there. -/
theorem EngineInv.entered (hof : Composed workflow compiled)
    (hinv : EngineInv dateParse compiled e) (hm : m ∈ workflow.mountings "")
    {before after : List StepRecord} {step : StepRecord}
    (hsteps : e.state.steps = before ++ step :: after) (hinside : step.nodeId ∈ m.inside)
    (hne : step.nodeId ≠ m.path) : ∃ entered ∈ before, entered.nodeId = m.path := by
  have hpath : e.path = before.map StepRecord.nodeId ++ [step.nodeId] ++
      (after.map StepRecord.nodeId ++ e.node?.toList) := by
    rw [Execution.path, hsteps]
    simp
  have hwalk := hinv.walk
  rw [hpath] at hwalk
  have hstart : (hof.region hm).StartsOutside (before.map StepRecord.nodeId ++ [step.nodeId]) := by
    intro first hfirst hin
    have hfirst : first = compiled.startAt := by
      refine hinv.starts first ?_
      rw [hpath]
      exact List.mem_head?_append_of_mem_head? hfirst
    have hroot : (("", workflow) : String × AuthoredWorkflow) ∈ workflow.mounted "" := by
      rw [mounted_eq]
      exact List.mem_cons_self
    have hname := (hof.shape _ hroot).names.nodes _ (hof.spec.valid _ hroot).start
    have hin : pathSegments m.path <+: pathSegments (qualify "" workflow.startAt) := by
      rw [hfirst, hof.spec.startAt] at hin
      exact hin
    rw [pathSegments_qualify "" (isNodeId_of_authored hname)] at hin
    rcases List.prefix_concat_iff.1 hin with heq | hnil
    · rw [← pathSegments_qualify "" (isNodeId_of_authored hname)] at heq
      rw [hfirst, hof.spec.startAt]
      exact (pathSegments_injective heq).symm
    · have hempty : pathSegments m.path = pathSegments "" := List.prefix_nil.1 hnil
      exact absurd (pathSegments_injective hempty) (hof.mounting hm).path
  obtain ⟨earlier, later, hsplit, -⟩ :=
    Region.since_entry (List.isChain_append.1 hwalk).1 hstart hinside
  have hmem : m.path ∈ before.map StepRecord.nodeId ++ [step.nodeId] := by
    rw [hsplit]
    exact List.mem_append_right _ List.mem_cons_self
  rcases List.mem_append.1 hmem with hbefore | hlast
  · obtain ⟨entered, hentered, hid⟩ := List.mem_map.1 hbefore
    exact ⟨entered, hentered, hid⟩
  · exact absurd (List.mem_singleton.1 hlast).symm hne

/-- The steps since an id was recorded last. -/
theorem drop_latestStepIndex {id : String} {before after : List StepRecord} {entered : StepRecord}
    (hid : entered.nodeId = id) (hlater : ∀ step ∈ after, step.nodeId ≠ id) :
    (before ++ entered :: after).drop
      (latestStepIndex (before ++ entered :: after) id + 1).toNat = after := by
  have hfrom : ∀ i : Nat, (before ++ entered :: after).drop (before.length + i) =
      (entered :: after).drop i := by
    intro i
    rw [List.drop_append, List.drop_eq_nil_of_le (Nat.le_add_right _ _), Nat.add_sub_cancel_left,
      List.nil_append]
  have hlow : (before.length : Int) - 1 <
      latestStepIndex (before ++ entered :: after) id := by
    refine (lt_latestStepIndex (by omega)).2 ⟨entered, ?_, hid⟩
    have hnat : ((before.length : Int) - 1 + 1).toNat = before.length + 0 := by omega
    rw [hnat, hfrom]
    exact List.mem_cons_self
  have hhigh : ¬ (before.length : Int) < latestStepIndex (before ++ entered :: after) id := by
    intro hlt
    obtain ⟨step, hstep, heq⟩ := (lt_latestStepIndex (by omega)).1 hlt
    have hnat : ((before.length : Int) + 1).toNat = before.length + 1 := by omega
    rw [hnat, hfrom] at hstep
    exact hlater step hstep heq
  have hnat : (latestStepIndex (before ++ entered :: after) id + 1).toNat =
      before.length + 1 := by omega
  rw [hnat, hfrom]
  rfl

/-- No exit of a mount has failed since the mount was entered last. -/
def ExitsHeld (workflow : CompiledWorkflow) (mountPath : String) (steps : List StepRecord) : Prop :=
  ∀ step ∈ steps.drop (latestStepIndex steps mountPath + 1).toNat,
    (workflow.exits.lookup step.nodeId).map ExitMetadata.mountPath = some mountPath →
      step.outcome = .ok

instance (workflow : CompiledWorkflow) (mountPath : String) (steps : List StepRecord) :
    Decidable (ExitsHeld workflow mountPath steps) :=
  inferInstanceAs (Decidable (∀ step ∈ steps.drop _, _ → _))

/-- A step that writes the key of a mount is an entry, or an exit that did not fail. -/
theorem writtenOutput_some {workflow : CompiledWorkflow} {key : String} {step : StepRecord}
    {value : Option Json} (h : writtenOutput workflow key step = some (some value)) :
    step.output = value ∧ (step.leaves workflow = some key ∨ step.nodeId = key) := by
  rw [writtenOutput] at h
  split at h
  · next hleaves => exact ⟨Option.some.inj (Option.some.inj h), .inl hleaves⟩
  · split at h
    · next hid =>
        split at h
        · exact ⟨Option.some.inj (Option.some.inj h), .inr hid⟩
        · cases h
    · cases h

/-- Where a callback of the parent runs and no exit has failed, the entry is not
what was written last. -/
theorem EngineInv.left_since (hof : Composed workflow compiled)
    (hinv : EngineInv dateParse compiled e) (hm : m ∈ workflow.mountings "")
    (hnode : e.node? = some node)
    (hcontext : contextScope compiled.toCompiledWorkflow node = some m.parentPath)
    {before after : List StepRecord} {entered : StepRecord}
    (hsteps : e.state.steps = before ++ entered :: after) (hid : entered.nodeId = m.path)
    (hheld : ∀ step ∈ after, (compiled.exits.lookup step.nodeId).map ExitMetadata.mountPath =
      some m.path → step.outcome = .ok) :
    ∃ step ∈ after, step.leaves compiled.toCompiledWorkflow = some m.path := by
  by_contra hnone
  push Not at hnone
  have hwalk := hinv.walk
  rw [Execution.path, hsteps, hnode, List.map_append, List.map_cons, List.append_assoc] at hwalk
  have hinside : entered.nodeId ∈ (hof.region hm).inside := by
    rw [hid]
    exact List.prefix_refl _
  have hpassed : ∀ id ∈ entered.nodeId :: after.map StepRecord.nodeId,
      id ∉ (hof.region hm).exits := by
    rintro id hmem ⟨exit, hexit, rfl⟩
    have hlookup := hof.exit_iff.2 ⟨m, hm, exit, hexit, rfl⟩
    rcases List.mem_cons.1 hmem with hentry | hlater
    · exact qualify_ne_exitNodeId (hof.mounting hm).name (hof.exitName hm hexit)
        (hid.symm.trans hentry.symm)
    · obtain ⟨step, hstep, heq⟩ := List.mem_map.1 hlater
      have hmount : (compiled.exits.lookup step.nodeId).map ExitMetadata.mountPath =
          some m.path := by
        rw [heq, hlookup]
        rfl
      refine hnone step hstep ?_
      rw [StepRecord.leaves, if_pos (hheld step hstep hmount), hmount]
  obtain ⟨hstands, hne⟩ := Region.stays (List.isChain_append.1 hwalk).2.1 hinside hpassed
  obtain ⟨name, hname, rfl⟩ := hof.contextScope_some hcontext
  exact hne (hof.beside_mount hm hname hstands)

/-- What a context shows under the name of a mount is what the mount path has. -/
theorem Composed.mount_shown (hof : Composed workflow compiled)
    (hscope : compiled.scopes.lookup path = some scope) (hm : m ∈ workflow.mountings "")
    (hmount : (name, m.path) ∈ scope.childMounts) {context shown : NodeContext}
    (hshown : projectWorkflowContext compiled.toCompiledWorkflow context path = .ok shown)
    {value : Option Json} (hvalue : shown.state.outputs.lookup name = some value) :
    context.state.outputs.lookup m.path = some value := by
  obtain ⟨current, hcurrent, rfl⟩ := hof.scope_iff.1 hscope
  have hpath : qualify path name = m.path := by
    obtain ⟨_, -, heq⟩ := List.mem_map.1 hmount
    obtain ⟨rfl, hpath⟩ := Prod.mk.inj heq
    exact hpath
  simp only [projectWorkflowContext, bind_ok, orThrow_ok, require_ok, pure_ok] at hshown
  obtain ⟨_, hsame, _, -, rfl⟩ := hshown
  obtain rfl := Option.some.inj (hscope.symm.trans hsame)
  rcases exposed_lookup hvalue with hnone | ⟨n, hn, hname, hfound⟩
  · cases hnone
  · rw [exposedNames, List.mem_append, List.mem_filter, List.mem_filter] at hn
    rcases hn with ⟨hn, -⟩ | ⟨hn, -⟩
    · obtain ⟨authored, hauthored, rfl⟩ := List.mem_map.1 hn
      have hnode := hof.node_ne_mount hcurrent (List.mem_map_of_mem hauthored) hm
      rw [show authored.1 = name from hname] at hnode
      exact absurd hpath hnode
    · obtain ⟨other, -, rfl⟩ := List.mem_map.1 hn
      rw [← hpath, ← show other = name from hname]
      exact hfound

variable {sha256 : String → String} {toISOString : Int → String}

/-- What the callbacks of a parent are shown under the name of a mount is what an
exit has left since the mount was entered, unless an exit has failed meanwhile. -/
theorem exposedMount_exited (hof : Composed workflow compiled) (runId : String) (input : Json)
    (actions : List EngineAction) (value : Option Json) {shown : NodeContext}
    (hrun : e = (Execution.fresh compiled.toCompiledWorkflow runId input).run sha256 dateParse
      toISOString compiled actions)
    (hheld : ExitsHeld compiled.toCompiledWorkflow mountPath e.state.steps)
    (hnode : e.node? = some node)
    (hcontext : contextScope compiled.toCompiledWorkflow node = some path)
    (hscope : compiled.scopes.lookup path = some scope)
    (hmount : (name, mountPath) ∈ scope.childMounts)
    (hshown : projectWorkflowContext compiled.toCompiledWorkflow e.context path = .ok shown)
    (hvalue : shown.state.outputs.lookup name = some value) :
    ∃ before step after exit output,
      e.state.steps = before ++ step :: after ∧
      compiled.exits.lookup step.nodeId = some exit ∧ exit.mountPath = mountPath ∧
      step.outcome = .ok ∧ step.output = value ∧
      value = some (exitRecord exit.exitName output) ∧
      (∃ entered ∈ before, entered.nodeId = mountPath) ∧
      ∀ later ∈ after, later.nodeId ≠ mountPath := by
  have hinv : EngineInv dateParse compiled e := by
    rw [hrun]
    exact engineInv_run sha256 toISOString hof (engineInv_fresh dateParse compiled runId input)
      actions
  obtain ⟨m, hm, rfl, rfl⟩ := hof.childMount hscope (List.mem_map_of_mem hmount)
  have hkey : e.state.outputs.lookup m.path = some value := hof.mount_shown hscope hm hmount hshown hvalue
  have houtputs : e.state.outputs = (buildProjection dateParse (createDefinitionSnapshot compiled)
      e.state.steps).outputs := congrArg Projection.outputs hinv.projection
  rw [houtputs, hof.lookup_outputs, Option.join_eq_some_iff, Latest.latest_some_iff] at hkey
  obtain ⟨before, step, after, hsteps, hwritten, hsilent⟩ := hkey
  have hlater : ∀ later ∈ after, ¬ later.Writes compiled.toCompiledWorkflow m.path := by
    intro later hmem hwrites
    exact (writtenOutput_ne_none _).2 hwrites (hsilent later hmem)
  have hnotEntered : ∀ later ∈ after, later.nodeId ≠ m.path := by
    intro later hmem hid
    exact hlater later hmem (.inl hid)
  obtain ⟨houtput, hleaves | hid⟩ := writtenOutput_some hwritten
  · rw [StepRecord.leaves] at hleaves
    split at hleaves
    · next hok =>
        obtain ⟨exit, hexit, hof'⟩ := Option.map_eq_some_iff.1 hleaves
        have hmem : step ∈ e.state.steps := by
          rw [hsteps]
          exact List.mem_append_right _ List.mem_cons_self
        obtain ⟨output, hrecord⟩ := hinv.exits step hmem exit hexit hok
        obtain ⟨m', hm', declared, hdeclared, heq⟩ := hof.exit_iff.1 hexit
        obtain ⟨hnodeId, rfl⟩ := Prod.mk.inj heq
        have hsame : m'.path = m.path := hof'
        have hexitId := isNodeId_exit (isNodeId_of_authored (hof.exitName hm' hdeclared))
        have hinside : step.nodeId ∈ m.inside ∧ step.nodeId ≠ m.path := by
          rw [hnodeId]
          exact Composed.inside_below hexitId (hsame ▸ List.prefix_refl _)
        refine ⟨before, step, after, _, output, hsteps, hexit, hof', hok, houtput, ?_, ?_,
          hnotEntered⟩
        · rw [← houtput, hrecord]
        · exact hinv.entered hof hm hsteps hinside.1 hinside.2
    · cases hleaves
  · have hheld' : ∀ step ∈ after, (compiled.exits.lookup step.nodeId).map
        ExitMetadata.mountPath = some m.path → step.outcome = .ok := by
      intro later hmem
      rw [ExitsHeld, hsteps, drop_latestStepIndex hid hnotEntered] at hheld
      exact hheld later hmem
    obtain ⟨left, hleft, hleaves⟩ := hinv.left_since hof hm hnode hcontext hsteps hid hheld'
    exact absurd (.inr hleaves) (hlater left hleft)

end

/-! ## A failed exit that is routed on -/

/-- A parent that goes on from the exit of its child, however the exit has ended. -/
def releaseWorkflow : AuthoredWorkflow :=
  .mk "release" "draft" none false
    [("draft", { nodeType := .compute }), ("finish", { nodeType := .compute }),
      ("handle", { nodeType := .compute })]
    [.plain "draft" "check",
      .switch "check.done" "$result.outcome" [("ok", "finish"), ("failed", "handle")]] []
    (.mount "check" false
      (.mk "check" "judge" none false [("judge", { nodeType := .compute })] []
        [("done", "judge")] .none) .none)

def releaseCompiled : ExecutableWorkflow where
  toCompiledWorkflow := (compileWorkflowDefinition releaseWorkflow).toOption.get (by decide)
  valid := rfl

theorem releaseComposed : Composed releaseWorkflow releaseCompiled where
  shape := by
    intro scope hscope
    change scope ∈ [_, _] at hscope
    simp only [List.mem_cons, List.not_mem_nil, or_false] at hscope
    rcases hscope with rfl | rfl <;> exact ⟨by decide, by decide, by decide, rfl⟩
  compiles := rfl

/-- The child is entered and has judged; its exit checks what it leaves. -/
def releaseActions (validate : Option Json → Except String (Option Json)) : List EngineAction :=
  let at0 := "1970-01-01T00:00:00.000Z"
  [.start "a1" at0 none, .finish (.authored (.returned (.str "draft") {})) at0,
    .start "a2" at0 none, .finish (.entered {}) at0,
    .start "a3" at0 none, .finish (.authored (.returned (.str "fine") {})) at0,
    .start "a4" at0 none, .finish (.left (some validate)) at0]

def releaseRun (validate : Option Json → Except String (Option Json)) : Execution :=
  (Execution.fresh releaseCompiled.toCompiledWorkflow "r" .null).run id (fun _ => some 0)
    (fun _ => "") releaseCompiled (releaseActions validate)

/-- The exit has not failed, so its parent is shown its record. -/
theorem heldExit_shown :
    ∃ before step after exit output,
      (releaseRun .ok).state.steps = before ++ step :: after ∧
      releaseCompiled.exits.lookup step.nodeId = some exit ∧ exit.mountPath = "check" ∧
      step.outcome = .ok ∧ step.output = some (exitRecord "done" (.str "fine")) ∧
      some (exitRecord "done" (.str "fine")) = some (exitRecord exit.exitName output) ∧
      (∃ entered ∈ before, entered.nodeId = "check") ∧ ∀ later ∈ after, later.nodeId ≠ "check" :=
  exposedMount_exited releaseComposed "r" .null (releaseActions .ok) _ rfl (by decide)
    (show (releaseRun .ok).node? = some "finish" from rfl)
    (show contextScope releaseCompiled.toCompiledWorkflow "finish" = some "" from rfl) rfl
    (show ("check", "check") ∈ [("check", "check")] by decide) rfl rfl

/-- The check of the exit has failed, the run stands on a node of the parent, and
what that node is shown of the mount is the record of its entry. -/
theorem failedExit_shown :
    (releaseRun fun _ => .error "not accepted").node? = some "handle" ∧
    contextScope releaseCompiled.toCompiledWorkflow "handle" = some "" ∧
    (projectWorkflowContext releaseCompiled.toCompiledWorkflow
        (releaseRun fun _ => .error "not accepted").context "").map
      (fun shown => shown.state.outputs.lookup "check") =
      .ok (some (some (entryRecord 1 (some .null) none))) ∧
    ∀ exitName output, entryRecord 1 (some .null) none ≠ exitRecord exitName output :=
  ⟨rfl, rfl, rfl, fun exitName _ h =>
    nomatch show none = some (Json.str exitName) from congrArg (fun v => v.member? "exit") h⟩

end PiWorkflows
