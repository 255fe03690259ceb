import PiWorkflows.Proofs.CompiledReach

/-!
# The records beside the compiled graph

Compilation fills three records while it walks the tree of definitions: the
scopes by their path, the entries and the exits by their node id. Each of them is
a list over the tree that can be written down without the walk
(`AuthoredWorkflow.mountings`), and in a workflow that the engine takes no key is
set twice and none is the one name a record cannot have, so the records are
exactly those lists (`ExecutableWorkflow.records`).
-/

namespace PiWorkflows

open Fallible

/-! ## Mountings -/

/-- An include that was mounted: where, and what. -/
structure Mounting where
  parentPath : String
  name : String
  mapsSettings : Bool
  child : AuthoredWorkflow

namespace Mounting

/-- The mount path. -/
def path (m : Mounting) : String :=
  qualify m.parentPath m.name

/-- The scope a mounting opens. -/
def scope (m : Mounting) : String × AuthoredWorkflow :=
  (m.path, m.child)

def entry (m : Mounting) : String × EntryMetadata :=
  (m.path, { mountPath := m.path, mountName := m.name, parentPath := m.parentPath
             workflowName := m.child.name, settings := m.mapsSettings })

def exit (m : Mounting) (exit : String × String) : String × ExitMetadata :=
  (exitNodeId m.path exit.1,
    { nodeId := exitNodeId m.path exit.1, mountPath := m.path, mountName := m.name
      parentPath := m.parentPath, exitName := exit.1, fromNode := qualify m.path exit.2 })

def exits (m : Mounting) : List (String × ExitMetadata) :=
  m.child.exits.map m.exit

end Mounting

mutual

/-- What a definition and those below it mount, each before what it mounts itself. -/
def AuthoredWorkflow.mountings : AuthoredWorkflow → String → List Mounting
  | .mk _ _ _ _ _ _ _ includes, path => includes.mountings path

def AuthoredIncludes.mountings : AuthoredIncludes → String → List Mounting
  | .none, _ => []
  | .mount name mapsSettings child rest, path =>
      ⟨path, name, mapsSettings, child⟩ :: child.mountings (qualify path name) ++
        rest.mountings path
  | .unresolved _ _ rest, path => rest.mountings path

end

mutual

/-- The scopes of a tree are its root and one for each mounting. -/
theorem mounted_mountings (workflow : AuthoredWorkflow) (path : String) :
    workflow.mounted path = (path, workflow) :: (workflow.mountings path).map Mounting.scope := by
  match workflow with
  | .mk name startAt maxSteps settings nodes edges exits includes =>
      rw [AuthoredWorkflow.mounted, AuthoredWorkflow.mountings, includesMounted_mountings]

theorem includesMounted_mountings (includes : AuthoredIncludes) (path : String) :
    includes.mounted path = (includes.mountings path).map Mounting.scope := by
  match includes with
  | .none => rfl
  | .unresolved _ _ rest => exact includesMounted_mountings rest path
  | .mount name _ child rest =>
      rw [AuthoredIncludes.mounted, AuthoredIncludes.mountings, List.map_append, List.map_cons,
        mounted_mountings child, includesMounted_mountings rest]
      rfl

end

/-- The mounting stands in a scope that mounts it. -/
def Mounting.StandsIn (m : Mounting) (scopes : List (String × AuthoredWorkflow)) : Prop :=
  ∃ parent, (m.parentPath, parent) ∈ scopes ∧ (m.name, m.child) ∈ parent.includes.mounts

theorem Mounting.StandsIn.mono {m : Mounting} {scopes scopes' : List (String × AuthoredWorkflow)}
    (h : m.StandsIn scopes) (hsub : ∀ scope ∈ scopes, scope ∈ scopes') : m.StandsIn scopes' := by
  obtain ⟨parent, hparent, hmount⟩ := h
  exact ⟨parent, hsub _ hparent, hmount⟩

mutual

theorem mountings_standIn {workflow : AuthoredWorkflow} {path : String} :
    ∀ m ∈ workflow.mountings path, m.StandsIn (workflow.mounted path) := by
  match workflow with
  | .mk name startAt maxSteps settings nodes edges exits includes =>
      intro m hm
      rw [mounted_eq]
      rcases includesMountings_standIn _ m hm with ⟨hpath, hmount⟩ | hbelow
      · refine ⟨.mk name startAt maxSteps settings nodes edges exits includes, ?_, hmount⟩
        rw [hpath]
        exact List.mem_cons_self
      · exact hbelow.mono fun _ => List.mem_cons_of_mem _

theorem includesMountings_standIn (includes : AuthoredIncludes) {path : String} :
    ∀ m ∈ includes.mountings path, (m.parentPath = path ∧ (m.name, m.child) ∈ includes.mounts) ∨
      m.StandsIn (includes.mounted path) := by
  match includes with
  | .none => exact fun _ h => absurd h List.not_mem_nil
  | .unresolved _ _ rest => exact includesMountings_standIn rest
  | .mount name _ child rest =>
      intro m hm
      rw [AuthoredIncludes.mountings, List.cons_append, List.mem_cons, List.mem_append] at hm
      rw [AuthoredIncludes.mounts, AuthoredIncludes.mounted]
      rcases hm with rfl | hchild | hrest
      · exact .inl ⟨rfl, List.mem_cons_self⟩
      · exact .inr ((mountings_standIn m hchild).mono fun _ => List.mem_append_left _)
      · rcases includesMountings_standIn _ m hrest with ⟨hpath, hmount⟩ | hbelow
        · exact .inl ⟨hpath, List.mem_cons_of_mem _ hmount⟩
        · exact .inr (hbelow.mono fun _ => List.mem_append_right _)

end

/-! ## The walk -/

/-- Members set one after another. -/
def assignAll {α : Type} (members : List (String × α)) (record : List (String × α)) :
    List (String × α) :=
  members.foldl (fun record e => assignMember e.1 e.2 record) record

section

variable {α : Type}

theorem assignAll_append (first second : List (String × α)) (record : List (String × α)) :
    assignAll (first ++ second) record = assignAll second (assignAll first record) := by
  rw [assignAll, List.foldl_append]
  rfl

theorem assignAll_of_nodup {members : List (String × α)} (hnodup : (members.map Prod.fst).Nodup)
    (hproto : ∀ e ∈ members, e.1 ≠ "__proto__") : assignAll members [] = members := by
  have hassign : assignAll members [] = members.foldl (fun l e => Assoc.setKey e.1 e.2 l) [] := by
    refine List.foldl_ext _ _ _ fun record e he => ?_
    rw [assignMember, if_neg (hproto e he)]
  rw [hassign]
  exact Assoc.foldl_setKey hnodup

end

/-- The scope record of a mounted definition. -/
def scopeMetadata (scope : String × AuthoredWorkflow) : String × ScopeMetadata :=
  (scope.1,
    { path := scope.1
      workflowName := scope.2.name
      maxSteps := scope.2.maxSteps
      settings := scope.2.settings
      authoredNodes := scope.2.nodes.map fun node => (node.1, qualify scope.1 node.1)
      childMounts := scope.2.includes.names.map fun name => (name, qualify scope.1 name) })

/-- What a part of the walk sets in the three records. -/
structure Records (acc acc' : Compilation) (scopes : List (String × AuthoredWorkflow))
    (mountings : List Mounting) : Prop where
  scopes : acc'.scopes = assignAll (scopes.map scopeMetadata) acc.scopes
  entries : acc'.entries = assignAll (mountings.map Mounting.entry) acc.entries
  exits : acc'.exits = assignAll (mountings.flatMap Mounting.exits) acc.exits

theorem Records.trans {a b c : Compilation} {scopes scopes' : List (String × AuthoredWorkflow)}
    {mountings mountings' : List Mounting} (h : Records a b scopes mountings)
    (h' : Records b c scopes' mountings') :
    Records a c (scopes ++ scopes') (mountings ++ mountings') where
  scopes := by rw [List.map_append, assignAll_append, ← h.scopes, h'.scopes]
  entries := by rw [List.map_append, assignAll_append, ← h.entries, h'.entries]
  exits := by rw [List.flatMap_append, assignAll_append, ← h.exits, h'.exits]

theorem mountExits_records (m : Mounting) (acc : Compilation) :
    (m.child.exits.foldl (mountExit m.child m.parentPath m.name) acc).exits =
        assignAll m.exits acc.exits ∧
      (m.child.exits.foldl (mountExit m.child m.parentPath m.name) acc).scopes = acc.scopes ∧
      (m.child.exits.foldl (mountExit m.child m.parentPath m.name) acc).entries = acc.entries := by
  unfold Mounting.exits
  induction m.child.exits generalizing acc with
  | nil => exact ⟨rfl, rfl, rfl⟩
  | cons exit rest ih =>
      obtain ⟨hexits, hscopes, hentries⟩ := ih (mountExit m.child m.parentPath m.name acc exit)
      exact ⟨hexits, hscopes, hentries⟩

/-- The entry and the exits of one mounting. -/
theorem records_mounting (m : Mounting) (acc : Compilation) (mounts : List MountSnapshot) :
    Records acc
      { m.child.exits.foldl (mountExit m.child m.parentPath m.name)
          (mountEntry m.child m.parentPath m.name m.mapsSettings acc) with mounts := mounts }
      [] [m] := by
  obtain ⟨hexits, hscopes, hentries⟩ :=
    mountExits_records m (mountEntry m.child m.parentPath m.name m.mapsSettings acc)
  constructor
  · exact hscopes
  · exact hentries
  · rw [List.flatMap_singleton]
    exact hexits

theorem records_scope (workflow : AuthoredWorkflow) (path : String) (acc : Compilation) :
    Records acc (mountScope workflow path acc) [(path, workflow)] [] :=
  ⟨rfl, rfl, rfl⟩

theorem records_edges {workflow : AuthoredWorkflow} {path : String} {acc acc' : Compilation}
    (h : mountEdges workflow path acc = .ok acc') : Records acc acc' [] [] := by
  simp only [mountEdges, bind_ok, pure_ok] at h
  obtain ⟨_, _, rfl⟩ := h
  exact ⟨rfl, rfl, rfl⟩

mutual

theorem mountWorkflow_records {current : AuthoredWorkflow} {path : String}
    {acc acc' : Compilation} (h : mountWorkflow current path acc = .ok acc') :
    Records acc acc' (current.mounted path) (current.mountings path) := by
  match current with
  | .mk name startAt maxSteps settings nodes edges exits includes =>
      simp only [mountWorkflow, bind_ok] at h
      obtain ⟨_, _, mounted, hmounted, hedges⟩ := h
      have hall := (records_scope _ path acc).trans
        ((mountIncludes_records hmounted).trans (records_edges hedges))
      rw [List.append_nil, List.append_nil] at hall
      exact hall

theorem mountIncludes_records {includes : AuthoredIncludes} {path : String}
    {acc acc' : Compilation} (h : mountIncludes includes path acc = .ok acc') :
    Records acc acc' (includes.mounted path) (includes.mountings path) := by
  match includes with
  | .none => rw [mountIncludes] at h; cases h; exact ⟨rfl, rfl, rfl⟩
  | .unresolved _ _ _ => rw [mountIncludes] at h; cases h
  | .mount name mapsSettings child rest =>
      simp only [mountIncludes, bind_ok] at h
      obtain ⟨_, _, mounted, hmounted, hrest⟩ := h
      exact (records_mounting ⟨path, name, mapsSettings, child⟩ acc _).trans
        ((mountWorkflow_records hmounted).trans (mountIncludes_records hrest))

end

/-! ## The records of a compiled workflow -/

/-- A workflow that the engine takes, compiled from a definition. -/
structure Composed (workflow : AuthoredWorkflow) (compiled : ExecutableWorkflow) : Prop where
  shape : workflow.ShapeValid
  compiles : compileWorkflowDefinition workflow = .ok compiled.toCompiledWorkflow

namespace Composed

variable {workflow : AuthoredWorkflow} {compiled : ExecutableWorkflow}

theorem spec (h : Composed workflow compiled) :
    CompiledOf workflow compiled.toCompiledWorkflow :=
  compiled_mounted h.shape h.compiles

/-- No id of the graph is the name a record cannot have. -/
theorem ne_proto (h : Composed workflow compiled) {id : String} (hid : id ∈ workflow.nodeIds) :
    id ≠ "__proto__" := by
  have hown := ((h.spec.validate h.shape).1 compiled.valid id hid).2
  rintro rfl
  exact absurd hown (by decide)

/-- What a mounting of the tree is like. -/
structure MountingFacts (workflow : AuthoredWorkflow) (m : Mounting) : Prop where
  parent : ∃ parent, (m.parentPath, parent) ∈ workflow.mounted "" ∧
    (m.name, m.child) ∈ parent.includes.mounts
  name : isAuthoredName m.name = true
  scope : m.scope ∈ workflow.mounted ""
  path : m.path ≠ ""

theorem mounting (h : Composed workflow compiled) {m : Mounting}
    (hm : m ∈ workflow.mountings "") : MountingFacts workflow m := by
  obtain ⟨parent, hparent, hmount⟩ := mountings_standIn m hm
  have hname := (h.shape _ hparent).names.includes _ (mem_names_of_mounts hmount)
  refine ⟨⟨parent, hparent, hmount⟩, hname, mounted_closed hparent hmount, ?_⟩
  exact qualify_ne_empty (isNodeId_of_authored hname)

theorem nodup_mountPaths (h : Composed workflow compiled) :
    ((workflow.mountings "").map Mounting.path).Nodup := by
  have hpaths := nodup_paths h.shape
  rw [mounted_mountings, List.map_cons, List.map_map, List.nodup_cons] at hpaths
  exact hpaths.2

theorem exitName (h : Composed workflow compiled) {m : Mounting}
    (hm : m ∈ workflow.mountings "") {exit : String × String} (hexit : exit ∈ m.child.exits) :
    isAuthoredName exit.1 = true :=
  (h.shape _ (h.mounting hm).scope).names.exits exit hexit

theorem nodup_exitIds (h : Composed workflow compiled) :
    (((workflow.mountings "").flatMap Mounting.exits).map Prod.fst).Nodup := by
  rw [List.map_flatMap, List.nodup_flatMap]
  constructor
  · intro m hm
    rw [Mounting.exits, List.map_map]
    refine List.Nodup.map_on ?_ (List.Nodup.of_map Prod.fst (h.shape _ (h.mounting hm).scope).exits)
    intro exit hexit exit' hexit' heq
    have hname := (exitNodeId_inj (isNodeId_of_authored (h.exitName hm hexit))
      (isNodeId_of_authored (h.exitName hm hexit'))).1 heq
    exact List.inj_on_of_nodup_map (h.shape _ (h.mounting hm).scope).exits hexit hexit' hname.2
  · refine (List.pairwise_map.1 h.nodup_mountPaths).imp_of_mem ?_
    intro m m' hm hm' hne id hid hid'
    obtain ⟨_, hmem, rfl⟩ := List.mem_map.1 hid
    obtain ⟨exit, hexit, rfl⟩ := List.mem_map.1 hmem
    obtain ⟨_, hmem', heq⟩ := List.mem_map.1 hid'
    obtain ⟨exit', hexit', rfl⟩ := List.mem_map.1 hmem'
    exact hne ((exitNodeId_inj (isNodeId_of_authored (h.exitName hm' hexit'))
      (isNodeId_of_authored (h.exitName hm hexit))).1 heq).1.symm

theorem entry_mem_nodeIds (h : Composed workflow compiled) {m : Mounting}
    (hm : m ∈ workflow.mountings "") : m.path ∈ workflow.nodeIds := by
  obtain ⟨parent, hparent, hmount⟩ := (h.mounting hm).parent
  exact mem_nodeIds hparent (List.mem_append_right _ (mem_names_of_mounts hmount))

/-- The three records. -/
theorem records (h : Composed workflow compiled) :
    compiled.scopes = (workflow.mounted "").map scopeMetadata ∧
      compiled.entries = (workflow.mountings "").map Mounting.entry ∧
      compiled.exits = (workflow.mountings "").flatMap Mounting.exits := by
  have hcompile := h.compiles
  simp only [compileWorkflowDefinition, bind_ok, pure_ok] at hcompile
  obtain ⟨_, -, acc, hmounted, heq⟩ := hcompile
  have hrecords := mountWorkflow_records hmounted
  rw [← heq]
  refine ⟨hrecords.scopes.trans ?_, hrecords.entries.trans ?_, hrecords.exits.trans ?_⟩
  · refine assignAll_of_nodup (by rw [List.map_map]; exact nodup_paths h.shape) ?_
    intro e he
    rw [mounted_mountings, List.map_cons, List.mem_cons] at he
    rcases he with rfl | he
    · exact (by decide : ("" : String) ≠ "__proto__")
    · obtain ⟨_, hscope, rfl⟩ := List.mem_map.1 he
      obtain ⟨m, hm, rfl⟩ := List.mem_map.1 hscope
      exact h.ne_proto (h.entry_mem_nodeIds hm)
  · refine assignAll_of_nodup (by rw [List.map_map]; exact h.nodup_mountPaths) ?_
    intro e he
    obtain ⟨m, hm, rfl⟩ := List.mem_map.1 he
    exact h.ne_proto (h.entry_mem_nodeIds hm)
  · refine assignAll_of_nodup h.nodup_exitIds ?_
    intro e he
    obtain ⟨m, hm, he⟩ := List.mem_flatMap.1 he
    obtain ⟨exit, hexit, rfl⟩ := List.mem_map.1 he
    exact h.ne_proto (exit_mem_nodeIds (h.mounting hm).scope (h.mounting hm).path
      (List.mem_map_of_mem hexit))

theorem scope_iff (h : Composed workflow compiled) {path : String} {scope : ScopeMetadata} :
    compiled.scopes.lookup path = some scope ↔
      ∃ current, (path, current) ∈ workflow.mounted "" ∧
        scope = (scopeMetadata (path, current)).2 := by
  rw [h.records.1]
  constructor
  · intro hlookup
    obtain ⟨⟨path', current⟩, hmem, heq⟩ := List.mem_map.1 (Assoc.mem_of_lookup hlookup)
    cases heq
    exact ⟨current, hmem, rfl⟩
  · rintro ⟨current, hmem, rfl⟩
    refine Assoc.lookup_of_mem ?_ (List.mem_map_of_mem hmem)
    rw [List.map_map]
    exact nodup_paths h.shape

theorem entry_iff (h : Composed workflow compiled) {id : String} {entry : EntryMetadata} :
    compiled.entries.lookup id = some entry ↔
      ∃ m ∈ workflow.mountings "", (id, entry) = m.entry := by
  rw [h.records.2.1]
  constructor
  · intro hlookup
    obtain ⟨m, hm, heq⟩ := List.mem_map.1 (Assoc.mem_of_lookup hlookup)
    exact ⟨m, hm, heq.symm⟩
  · rintro ⟨m, hm, heq⟩
    refine Assoc.lookup_of_mem ?_ (heq ▸ List.mem_map_of_mem hm)
    rw [List.map_map]
    exact h.nodup_mountPaths

theorem exit_iff (h : Composed workflow compiled) {id : String} {exit : ExitMetadata} :
    compiled.exits.lookup id = some exit ↔
      ∃ m ∈ workflow.mountings "", ∃ declared ∈ m.child.exits, (id, exit) = m.exit declared := by
  rw [h.records.2.2]
  constructor
  · intro hlookup
    obtain ⟨m, hm, hmem⟩ := List.mem_flatMap.1 (Assoc.mem_of_lookup hlookup)
    obtain ⟨declared, hdeclared, heq⟩ := List.mem_map.1 hmem
    exact ⟨m, hm, declared, hdeclared, heq.symm⟩
  · rintro ⟨m, hm, declared, hdeclared, heq⟩
    refine Assoc.lookup_of_mem h.nodup_exitIds (List.mem_flatMap.2 ⟨m, hm, ?_⟩)
    rw [heq]
    exact List.mem_map_of_mem hdeclared

end Composed

end PiWorkflows
