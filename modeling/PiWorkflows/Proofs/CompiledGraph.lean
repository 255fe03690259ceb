import PiWorkflows.Proofs.Scopes

/-!
# The compiled graph

What one scope contributes to the graph can be written down without the walk
that compiles it: the ids of its nodes, of the entries of its includes and of its
own exits, and the edges that leave them. The compiled graph consists of these
contributions (`compiled_mounted`).

An id determines its scope. Its last segment is a name of the scope, or one kept
for exits, and what stands before it is the path. So contributions of different
scopes never meet, and inside one scope the checks on its definition keep them
apart.
-/

namespace PiWorkflows

open Fallible

/-! ## What a scope contributes -/

/-- The ids of the nodes of a scope, of the entries of its includes and of its exits. -/
def scopeIds (scope : String × AuthoredWorkflow) : List String :=
  (scope.2.nodes.map Prod.fst ++ scope.2.includes.names).map (qualify scope.1) ++
    if scope.1 = "" then [] else scope.2.exits.map fun exit => exitNodeId scope.1 exit.1

/-- From each entry into the child. -/
def entryEdges (path : String) (includes : AuthoredIncludes) : List WorkflowEdge :=
  includes.mounts.map fun mount =>
    .plain (qualify path mount.1) (qualify (qualify path mount.1) mount.2.startAt)

/-- From the terminal node of each exit to the exit. -/
def exitEdges (path : String) (workflow : AuthoredWorkflow) : List WorkflowEdge :=
  workflow.exits.map fun exit => .plain (qualify path exit.2) (exitNodeId path exit.1)

/-- The compiled node that an authored edge leaves: a node of the scope, or an exit of an include. -/
def qualifySource (path : String) (workflow : AuthoredWorkflow) (source : String) : String :=
  if hasOwn workflow.nodes source then qualify path source
  else
    match parseExitReference source with
    | some (mount, exitName) => exitNodeId (qualify path mount) exitName
    | none => source

/-- An authored edge under compiled ids. -/
def qualifyEdge (path : String) (workflow : AuthoredWorkflow) : WorkflowEdge → WorkflowEdge
  | .plain source target => .plain (qualifySource path workflow source) (qualify path target)
  | .switch source on cases =>
      .switch (qualifySource path workflow source) on
        (cases.map fun entry => (entry.1, qualify path entry.2))

/-- The edges that leave the ids of a scope, and those that leave exits of its includes. -/
def scopeEdges (scope : String × AuthoredWorkflow) : List WorkflowEdge :=
  entryEdges scope.1 scope.2.includes ++
    (if scope.1 = "" then [] else exitEdges scope.1 scope.2) ++
    scope.2.edges.map (qualifyEdge scope.1 scope.2)

/-! ## The walk of the tree -/

/-- The record of exits knows every exit by its own node id. -/
def ExitsNamed (acc : Compilation) : Prop :=
  ∀ exit ∈ acc.exits.map Prod.snd, exit.nodeId = exitNodeId exit.mountPath exit.exitName

section

variable {acc acc' : Compilation} {path : String}

theorem mem_values_assignMember {α : Type} {key : String} {value found : α}
    {record : List (String × α)} (h : found ∈ (assignMember key value record).map Prod.snd) :
    found = value ∨ found ∈ record.map Prod.snd := by
  unfold assignMember at h
  split at h
  · exact .inr h
  · exact Assoc.mem_values_setKey h

theorem ExitsNamed.mountExits {child : AuthoredWorkflow} {name : String}
    {exits : List (String × String)} (h : ExitsNamed acc) :
    ExitsNamed (exits.foldl (mountExit child path name) acc) := by
  induction exits generalizing acc with
  | nil => exact h
  | cons exit rest ih =>
      refine ih fun found hfound => ?_
      rcases mem_values_assignMember hfound with rfl | hbefore
      · rfl
      · exact h found hbefore

theorem resolveAuthoredFrom_ok {workflow : AuthoredWorkflow} {source resolved : String}
    (hacc : ExitsNamed acc) (h : resolveAuthoredFrom path workflow source acc.exits = .ok resolved) :
    resolved = qualifySource path workflow source := by
  unfold resolveAuthoredFrom at h
  unfold qualifySource
  split at h
  · next hnode =>
      rw [if_pos hnode]
      exact (Except.ok.inj h).symm
  · next hnode =>
      rw [if_neg hnode]
      split at h
      · cases h
      · next mount exitName hparsed =>
          rw [hparsed]
          rw [orThrow_ok] at h
          obtain ⟨exit, hfound, rfl⟩ := Option.map_eq_some_iff.1 h
          have hmatches := List.find?_some hfound
          rw [decide_eq_true_eq] at hmatches
          obtain ⟨hpath, hname⟩ := hmatches
          rw [hacc exit (List.mem_of_find?_eq_some hfound), hpath, hname]

theorem resolveAuthoredEdge_ok {workflow : AuthoredWorkflow} {edge resolved : WorkflowEdge}
    (hacc : ExitsNamed acc) (h : resolveAuthoredEdge path workflow acc.exits edge = .ok resolved) :
    resolved = qualifyEdge path workflow edge := by
  have hto : ∀ {target resolved : String}, resolveAuthoredTo path workflow target = .ok resolved →
      resolved = qualify path target := by
    intro target resolved h
    unfold resolveAuthoredTo at h
    split at h
    · exact (Except.ok.inj h).symm
    · cases h
  simp only [resolveAuthoredEdge, bind_ok] at h
  obtain ⟨source, hsource, h⟩ := h
  rw [resolveAuthoredFrom_ok hacc hsource] at h
  cases edge with
  | plain _ target =>
      simp only [bind_ok, pure_ok] at h
      obtain ⟨target', htarget, rfl⟩ := h
      rw [hto htarget]
      rfl
  | switch _ on cases =>
      simp only [bind_ok, pure_ok] at h
      obtain ⟨cases', hcases, rfl⟩ := h
      rw [qualifyEdge]
      congr 1
      refine Fallible.eq_map_of_mapM hcases ?_
      intro entry resolved hentry
      simp only [bind_ok, pure_ok] at hentry
      obtain ⟨target', htarget, rfl⟩ := hentry
      rw [hto htarget]

theorem mountExits_edges (child : AuthoredWorkflow) (name : String)
    (exits : List (String × String)) (acc : Compilation) :
    (exits.foldl (mountExit child path name) acc).edges =
      acc.edges ++ exits.map fun exit =>
        .plain (qualify (qualify path name) exit.2) (exitNodeId (qualify path name) exit.1) := by
  induction exits generalizing acc with
  | nil => simp
  | cons exit rest ih =>
      rw [List.foldl_cons, ih, List.map_cons]
      simp [mountExit]

theorem mem_mountExits_nodes (child : AuthoredWorkflow) (name : String)
    (exits : List (String × String)) (acc : Compilation) (id : String) :
    id ∈ (exits.foldl (mountExit child path name) acc).nodes.map Prod.fst ↔
      (id ≠ "__proto__" ∧ id ∈ exits.map fun exit => exitNodeId (qualify path name) exit.1) ∨
        id ∈ acc.nodes.map Prod.fst := by
  induction exits generalizing acc with
  | nil => simp
  | cons exit rest ih =>
      rw [List.foldl_cons, ih, List.map_cons, List.mem_cons]
      have hstep : id ∈ (mountExit child path name acc exit).nodes.map Prod.fst ↔ _ :=
        mem_keys_assignMember
      rw [hstep]
      tauto

theorem mountScope_nodes (workflow : AuthoredWorkflow) (acc : Compilation) (id : String) :
    id ∈ (mountScope workflow path acc).nodes.map Prod.fst ↔
      (id ≠ "__proto__" ∧ id ∈ (workflow.nodes.map Prod.fst).map (qualify path)) ∨
        id ∈ acc.nodes.map Prod.fst := by
  unfold mountScope
  dsimp only
  generalize acc.nodes = nodes
  induction workflow.nodes generalizing nodes with
  | nil => simp
  | cons node rest ih =>
      rw [List.foldl_cons, ih, mem_keys_assignMember, List.map_cons, List.map_cons, List.mem_cons]
      tauto

theorem nodup_mountScope (workflow : AuthoredWorkflow) (h : (acc.nodes.map Prod.fst).Nodup) :
    ((mountScope workflow path acc).nodes.map Prod.fst).Nodup := by
  unfold mountScope
  dsimp only
  generalize acc.nodes = nodes at h
  induction workflow.nodes generalizing nodes with
  | nil => exact h
  | cons node rest ih => exact ih _ (nodup_keys_assignMember h)

theorem nodup_mountExits {child : AuthoredWorkflow} {name : String} {exits : List (String × String)}
    (h : (acc.nodes.map Prod.fst).Nodup) :
    ((exits.foldl (mountExit child path name) acc).nodes.map Prod.fst).Nodup := by
  induction exits generalizing acc with
  | nil => exact h
  | cons exit rest ih => exact ih (nodup_keys_assignMember h)

end

/-- What a part of the walk did: the scopes it went through passed their checks, and it added the
given ids and edges. -/
structure Mounted (acc acc' : Compilation) (scopes : List (String × AuthoredWorkflow))
    (ids : List String) (edges : List WorkflowEdge) : Prop where
  valid : ∀ scope ∈ scopes, ScopeValid scope.2 (decide (scope.1 ≠ ""))
  resolved : ∀ scope ∈ scopes, scope.2.includes.names = scope.2.includes.mounts.map Prod.fst
  exitsNamed : ExitsNamed acc → ExitsNamed acc'
  nodup : (acc.nodes.map Prod.fst).Nodup → (acc'.nodes.map Prod.fst).Nodup
  nodes : ∀ id, id ∈ acc'.nodes.map Prod.fst ↔
    (id ≠ "__proto__" ∧ id ∈ ids) ∨ id ∈ acc.nodes.map Prod.fst
  edges : ExitsNamed acc → acc'.edges.Perm (acc.edges ++ edges)

section

variable {a b c : Compilation} {scopes scopes' : List (String × AuthoredWorkflow)}
  {ids ids' : List String} {edges edges' : List WorkflowEdge} {path : String}

/-- The list of mounts is no part of the graph. -/
theorem Mounted.of_mounts (acc : Compilation) (mounts : List MountSnapshot) :
    Mounted acc { acc with mounts := mounts } [] [] [] where
  valid _ h := absurd h List.not_mem_nil
  resolved _ h := absurd h List.not_mem_nil
  exitsNamed h := h
  nodup h := h
  nodes id := by simp
  edges _ := by rw [List.append_nil]

theorem Mounted.trans (h : Mounted a b scopes ids edges) (h' : Mounted b c scopes' ids' edges') :
    Mounted a c (scopes ++ scopes') (ids ++ ids') (edges ++ edges') where
  valid scope hscope := (List.mem_append.1 hscope).elim (h.valid scope) (h'.valid scope)
  resolved scope hscope := (List.mem_append.1 hscope).elim (h.resolved scope) (h'.resolved scope)
  exitsNamed ha := h'.exitsNamed (h.exitsNamed ha)
  nodup ha := h'.nodup (h.nodup ha)
  nodes id := by
    rw [h'.nodes, h.nodes, List.mem_append]
    tauto
  edges ha := by
    rw [← List.append_assoc]
    exact (h'.edges (h.exitsNamed ha)).trans ((h.edges ha).append_right edges')

theorem Mounted.perm (h : Mounted a b scopes ids edges) (hids : ∀ id, id ∈ ids ↔ id ∈ ids')
    (hedges : edges.Perm edges') : Mounted a b scopes ids' edges' where
  valid := h.valid
  resolved := h.resolved
  exitsNamed := h.exitsNamed
  nodup := h.nodup
  nodes id := by rw [h.nodes, hids]
  edges ha := (h.edges ha).trans (hedges.append_left a.edges)

theorem mounted_scope (workflow : AuthoredWorkflow) (acc : Compilation) :
    Mounted acc (mountScope workflow path acc) []
      ((workflow.nodes.map Prod.fst).map (qualify path)) [] where
  valid _ h := absurd h List.not_mem_nil
  resolved _ h := absurd h List.not_mem_nil
  exitsNamed h := h
  nodup := nodup_mountScope workflow
  nodes := mountScope_nodes workflow acc
  edges _ := by rw [List.append_nil]; exact List.Perm.refl _

theorem mounted_entry (child : AuthoredWorkflow) (name : String) (mapsSettings : Bool)
    (acc : Compilation) :
    Mounted acc (mountEntry child path name mapsSettings acc) [] [qualify path name]
      [.plain (qualify path name) (qualify (qualify path name) child.startAt)] where
  valid _ h := absurd h List.not_mem_nil
  resolved _ h := absurd h List.not_mem_nil
  exitsNamed h := h
  nodup := nodup_keys_assignMember
  nodes id := by
    rw [List.mem_singleton]
    exact mem_keys_assignMember.trans (or_congr_left and_comm)
  edges _ := List.Perm.refl _

theorem mounted_exits (child : AuthoredWorkflow) (name : String) (acc : Compilation) :
    Mounted acc (child.exits.foldl (mountExit child path name) acc) []
      (child.exits.map fun exit => exitNodeId (qualify path name) exit.1)
      (exitEdges (qualify path name) child) where
  valid _ h := absurd h List.not_mem_nil
  resolved _ h := absurd h List.not_mem_nil
  exitsNamed := ExitsNamed.mountExits
  nodup := nodup_mountExits
  nodes := mem_mountExits_nodes child name child.exits acc
  edges _ := by
    rw [mountExits_edges]
    exact List.Perm.refl _

theorem mounted_edges {workflow : AuthoredWorkflow} {acc acc' : Compilation}
    (h : mountEdges workflow path acc = .ok acc') :
    Mounted acc acc' [] [] (workflow.edges.map (qualifyEdge path workflow)) := by
  simp only [mountEdges, bind_ok, pure_ok] at h
  obtain ⟨resolved, hresolved, rfl⟩ := h
  constructor
  · exact fun _ h => absurd h List.not_mem_nil
  · exact fun _ h => absurd h List.not_mem_nil
  · exact id
  · exact id
  · exact fun id => by simp
  · intro hacc
    rw [eq_map_of_mapM hresolved fun _ _ h => resolveAuthoredEdge_ok hacc h]

end

/-- An include without a definition stops the walk. -/
theorem mountIncludes_resolved {includes : AuthoredIncludes} {path : String}
    {acc acc' : Compilation} (h : mountIncludes includes path acc = .ok acc') :
    includes.names = includes.mounts.map Prod.fst := by
  match includes with
  | .none => rfl
  | .unresolved _ _ _ => rw [mountIncludes] at h; cases h
  | .mount name mapsSettings child rest =>
      simp only [mountIncludes, bind_ok] at h
      obtain ⟨_, _, _, _, hrest⟩ := h
      rw [AuthoredIncludes.names, mountIncludes_resolved hrest]
      rfl

/-- The ids of a scope that its own walk adds. -/
def innerIds (path : String) (workflow : AuthoredWorkflow) : List String :=
  (workflow.nodes.map Prod.fst ++ workflow.includes.names).map (qualify path)

/-- The edges of a scope that its own walk adds. -/
def innerEdges (path : String) (workflow : AuthoredWorkflow) : List WorkflowEdge :=
  entryEdges path workflow.includes ++ workflow.edges.map (qualifyEdge path workflow)

theorem scopeIds_mounted {workflow : AuthoredWorkflow} {path : String} (h : path ≠ "") :
    scopeIds (path, workflow) =
      innerIds path workflow ++ workflow.exits.map fun exit => exitNodeId path exit.1 := by
  rw [scopeIds, innerIds, if_neg h]

theorem scopeEdges_mounted {workflow : AuthoredWorkflow} {path : String} (h : path ≠ "")
    (edge : WorkflowEdge) :
    (scopeEdges (path, workflow)).count edge =
      (innerEdges path workflow).count edge + (exitEdges path workflow).count edge := by
  rw [scopeEdges, innerEdges, if_neg h]
  simp only [List.count_append]
  omega

mutual

theorem mountWorkflow_mounted {current : AuthoredWorkflow} {path : String}
    {acc acc' : Compilation} (hnames : ∀ scope ∈ current.mounted path, ScopeNames scope.2)
    (h : mountWorkflow current path acc = .ok acc') :
    Mounted acc acc' (current.mounted path)
      (innerIds path current ++ (current.includes.mounted path).flatMap scopeIds)
      (innerEdges path current ++ (current.includes.mounted path).flatMap scopeEdges) := by
  rw [mounted_eq] at hnames ⊢
  obtain ⟨hown, hnames⟩ := List.forall_mem_cons.1 hnames
  match current with
  | .mk name startAt maxSteps settings nodes edges exits includes =>
      simp only [mountWorkflow, bind_ok] at h
      obtain ⟨_, hvalid, mounted, hmounted, hedges⟩ := h
      have hall := (mounted_scope _ acc).trans
        ((mountIncludes_mounted hown.includes hnames hmounted).trans (mounted_edges hedges))
      rw [List.append_nil, List.nil_append] at hall
      have hinner : Mounted acc acc' (includes.mounted path)
          (innerIds path (.mk name startAt maxSteps settings nodes edges exits includes) ++
            (includes.mounted path).flatMap scopeIds)
          (innerEdges path (.mk name startAt maxSteps settings nodes edges exits includes) ++
            (includes.mounted path).flatMap scopeEdges) := by
        refine hall.perm ?_ ?_
        · intro id
          simp [innerIds, AuthoredWorkflow.nodes, AuthoredWorkflow.includes]
        · rw [List.perm_iff_count]
          intro edge
          simp only [innerEdges, AuthoredWorkflow.edges, AuthoredWorkflow.includes,
            List.count_append, List.nil_append]
          omega
      exact { hinner with
        valid := List.forall_mem_cons.2 ⟨validateAuthoredWorkflow_ok hvalid, hinner.valid⟩
        resolved := List.forall_mem_cons.2 ⟨mountIncludes_resolved hmounted, hinner.resolved⟩ }

theorem mountIncludes_mounted {includes : AuthoredIncludes} {path : String}
    {acc acc' : Compilation} (hincludes : ∀ name ∈ includes.names, isAuthoredName name = true)
    (hnames : ∀ scope ∈ includes.mounted path, ScopeNames scope.2)
    (h : mountIncludes includes path acc = .ok acc') :
    Mounted acc acc' (includes.mounted path)
      (includes.names.map (qualify path) ++ (includes.mounted path).flatMap scopeIds)
      (entryEdges path includes ++ (includes.mounted path).flatMap scopeEdges) := by
  match includes with
  | .none =>
      rw [mountIncludes] at h
      cases h
      exact .of_mounts acc acc.mounts
  | .unresolved _ _ _ => rw [mountIncludes] at h; cases h
  | .mount name mapsSettings child rest =>
      simp only [mountIncludes, bind_ok] at h
      obtain ⟨_, _, mounted, hmounted, hrest⟩ := h
      rw [AuthoredIncludes.names, List.forall_mem_cons] at hincludes
      rw [AuthoredIncludes.mounted, List.forall_mem_append] at hnames
      have hchild := mountWorkflow_mounted hnames.1 hmounted
      have hall := (mounted_entry child name mapsSettings acc).trans
        ((mounted_exits child name _).trans (((Mounted.of_mounts _ _).trans hchild).trans
          (mountIncludes_mounted hincludes.2 hnames.2 hrest)))
      have hpath : qualify path name ≠ "" := qualify_ne_empty (isAuthoredName_iff.1 hincludes.1).1
      refine hall.perm ?_ ?_
      · intro id
        simp only [AuthoredIncludes.names, AuthoredIncludes.mounted, mounted_eq child,
          scopeIds_mounted hpath, List.map_cons, List.flatMap_append, List.flatMap_cons,
          List.mem_append, List.mem_cons, List.not_mem_nil]
        tauto
      · rw [List.perm_iff_count]
        intro edge
        simp only [AuthoredIncludes.mounted, mounted_eq child, List.flatMap_append,
          List.flatMap_cons, entryEdges, AuthoredIncludes.mounts, List.map_cons, List.count_append,
          List.count_cons, List.count_nil, scopeEdges_mounted hpath]
        omega

end

/-! ## Ids and sources are distinct -/

section

variable {path : String} {workflow : AuthoredWorkflow}

theorem isNodeId_of_authored {name : String} (h : isAuthoredName name = true) :
    isNodeId name = true :=
  (isAuthoredName_iff.1 h).1

/-- Every id of a scope stands under its path. -/
theorem mem_scopeIds {id : String} (hnames : ScopeNames workflow)
    (h : id ∈ scopeIds (path, workflow)) : ∃ name, isNodeId name = true ∧ id = qualify path name := by
  rw [scopeIds, List.mem_append, List.map_append, List.mem_append] at h
  rcases h with (hnode | hentry) | hexit
  · obtain ⟨name, hname, rfl⟩ := List.mem_map.1 hnode
    exact ⟨name, isNodeId_of_authored (hnames.nodes name hname), rfl⟩
  · obtain ⟨name, hname, rfl⟩ := List.mem_map.1 hentry
    exact ⟨name, isNodeId_of_authored (hnames.includes name hname), rfl⟩
  · split at hexit
    · cases hexit
    · obtain ⟨exit, hmem, rfl⟩ := List.mem_map.1 hexit
      exact ⟨_, isNodeId_exit (isNodeId_of_authored (hnames.exits exit hmem)), rfl⟩

theorem nodup_qualify {names : List String} (hnames : ∀ name ∈ names, isAuthoredName name = true)
    (h : names.Nodup) : (names.map (qualify path)).Nodup := by
  refine List.Nodup.map_on ?_ h
  intro name hname name' hname' heq
  exact ((qualify_inj (isNodeId_of_authored (hnames name hname))
    (isNodeId_of_authored (hnames name' hname'))).1 heq).2

theorem nodup_scopeIds (hshape : workflow.IsShapeValid) : (scopeIds (path, workflow)).Nodup := by
  have hnames := hshape.names
  have hauthored : ∀ name ∈ workflow.nodes.map Prod.fst ++ workflow.includes.names,
      isAuthoredName name = true :=
    List.forall_mem_append.2 ⟨hnames.nodes, hnames.includes⟩
  have hdistinct : (workflow.nodes.map Prod.fst ++ workflow.includes.names).Nodup :=
    List.nodup_append.2 ⟨hshape.nodes, hshape.includes, fun id hid name hname heq =>
      hnames.apart id hid (heq ▸ hname)⟩
  rw [scopeIds, List.nodup_append]
  refine ⟨nodup_qualify hauthored hdistinct, ?_, ?_⟩
  · split
    · exact List.nodup_nil
    · rw [← Function.comp_def (exitNodeId path) Prod.fst, ← List.map_map]
      refine List.Nodup.map_on ?_ hshape.exits
      intro exitName hexit exitName' hexit' heq
      obtain ⟨exit, hmem, rfl⟩ := List.mem_map.1 hexit
      obtain ⟨exit', hmem', rfl⟩ := List.mem_map.1 hexit'
      exact ((exitNodeId_inj (isNodeId_of_authored (hnames.exits exit hmem))
        (isNodeId_of_authored (hnames.exits exit' hmem'))).1 heq).2
  · intro id hid id' hid' heq
    split at hid'
    · cases hid'
    · obtain ⟨name, hname, rfl⟩ := List.mem_map.1 hid
      obtain ⟨exit, hmem, rfl⟩ := List.mem_map.1 hid'
      exact qualify_ne_exitNodeId (hauthored name hname) (hnames.exits exit hmem) heq

/-- What an edge of a scope may leave. -/
inductive SourceOf (path : String) : String → Prop
  | name {name : String} (h : isAuthoredName name = true) : SourceOf path (qualify path name)
  | exit {mount exitName : String} (hmount : isAuthoredName mount = true)
      (hexit : isAuthoredName exitName = true) :
      SourceOf path (exitNodeId (qualify path mount) exitName)

theorem SourceOf.path_eq {path path' source : String} (h : SourceOf path source)
    (h' : SourceOf path' source) : path = path' := by
  cases h with
  | name hname =>
      generalize hsource : qualify path _ = source at h'
      cases h' with
      | name hname' =>
          exact ((qualify_inj (isNodeId_of_authored hname) (isNodeId_of_authored hname')).1 hsource).1
      | exit _ hexit' => exact absurd hsource (qualify_ne_exitNodeId hname hexit')
  | exit hmount hexit =>
      generalize hsource : exitNodeId (qualify path _) _ = source at h'
      cases h' with
      | name hname' => exact absurd hsource.symm (qualify_ne_exitNodeId hname' hexit)
      | exit hmount' hexit' =>
          have hmounts := ((exitNodeId_inj (isNodeId_of_authored hexit)
            (isNodeId_of_authored hexit')).1 hsource).1
          exact ((qualify_inj (isNodeId_of_authored hmount)
            (isNodeId_of_authored hmount')).1 hmounts).1

/-- The names of the definitions a scope mounts are checked as well. -/
def MountedNames (workflow : AuthoredWorkflow) : Prop :=
  ∀ mount ∈ workflow.includes.mounts, ScopeNames mount.2

theorem parseExitReference_inj {source source' : String} {parsed : String × String}
    (h : parseExitReference source = some parsed) (h' : parseExitReference source' = some parsed) :
    source = source' := by
  have hsplit : ∀ {source}, parseExitReference source = some parsed →
      splitText '.' source = [parsed.1, parsed.2] := by
    intro source h
    unfold parseExitReference at h
    split at h
    · next mount exitName hlist =>
        split at h
        · cases h
          exact hlist
        · cases h
    · cases h
  rw [← joinText_splitText '.' source, hsplit h, ← hsplit h', joinText_splitText]

/-- The two kinds of authored sources. -/
theorem qualifySource_cases {source : String} (hmounted : MountedNames workflow)
    (h : IsAuthoredFrom workflow source) :
    (source ∈ workflow.nodes.map Prod.fst ∧
      qualifySource path workflow source = qualify path source) ∨
    ∃ mount exitName, parseExitReference source = some (mount, exitName) ∧
      mount ∈ workflow.includes.names ∧ isAuthoredName exitName = true ∧
      qualifySource path workflow source = exitNodeId (qualify path mount) exitName := by
  by_cases hnode : hasOwn workflow.nodes source = true
  · exact .inl ⟨hasOwn_iff.1 hnode, by rw [qualifySource, if_pos hnode]⟩
  · rcases h with hmem | ⟨mount, exitName, child, hparsed, hmount, hexit⟩
    · exact absurd (hasOwn_iff.2 hmem) hnode
    · refine .inr ⟨mount, exitName, hparsed, mem_names_of_mounts hmount, ?_, ?_⟩
      · obtain ⟨exit, hmem, rfl⟩ := List.mem_map.1 hexit
        exact (hmounted _ hmount).exits exit hmem
      · rw [qualifySource, if_neg hnode, hparsed]

theorem qualifySource_inj {source source' : String} (hnames : ScopeNames workflow)
    (hmounted : MountedNames workflow) (h : IsAuthoredFrom workflow source)
    (h' : IsAuthoredFrom workflow source')
    (heq : qualifySource path workflow source = qualifySource path workflow source') :
    source = source' := by
  rcases qualifySource_cases hmounted h with ⟨hnode, hsource⟩ |
    ⟨mount, exitName, hparsed, hmount, hexit, hsource⟩ <;>
  rcases qualifySource_cases hmounted h' with ⟨hnode', hsource'⟩ |
    ⟨mount', exitName', hparsed', hmount', hexit', hsource'⟩ <;>
  rw [hsource, hsource'] at heq
  · exact ((qualify_inj (isNodeId_of_authored (hnames.nodes _ hnode))
      (isNodeId_of_authored (hnames.nodes _ hnode'))).1 heq).2
  · exact absurd heq (qualify_ne_exitNodeId (hnames.nodes _ hnode) hexit')
  · exact absurd heq.symm (qualify_ne_exitNodeId (hnames.nodes _ hnode') hexit)
  · obtain ⟨hmounts, hexits⟩ := (exitNodeId_inj (isNodeId_of_authored hexit)
      (isNodeId_of_authored hexit')).1 heq
    obtain ⟨-, hmounts⟩ := (qualify_inj (isNodeId_of_authored (hnames.includes _ hmount))
      (isNodeId_of_authored (hnames.includes _ hmount'))).1 hmounts
    subst hmounts hexits
    exact parseExitReference_inj hparsed hparsed'

theorem qualifyEdge_source (edge : WorkflowEdge) :
    (qualifyEdge path workflow edge).source = qualifySource path workflow edge.source := by
  cases edge <;> rfl

theorem scopeEdges_sources (path : String) (workflow : AuthoredWorkflow) :
    (scopeEdges (path, workflow)).map WorkflowEdge.source =
      (workflow.includes.mounts.map Prod.fst ++
        if path = "" then [] else workflow.exits.map Prod.snd).map (qualify path) ++
      (workflow.edges.map WorkflowEdge.source).map (qualifySource path workflow) := by
  have hauthored : (workflow.edges.map (qualifyEdge path workflow)).map WorkflowEdge.source =
      (workflow.edges.map WorkflowEdge.source).map (qualifySource path workflow) := by
    rw [List.map_map, List.map_map]
    exact List.map_congr_left fun edge _ => qualifyEdge_source edge
  have hentry : (entryEdges path workflow.includes).map WorkflowEdge.source =
      (workflow.includes.mounts.map Prod.fst).map (qualify path) := by
    rw [entryEdges, List.map_map, List.map_map]
    rfl
  have hexit : (if path = "" then [] else exitEdges path workflow).map WorkflowEdge.source =
      (if path = "" then [] else workflow.exits.map Prod.snd).map (qualify path) := by
    split
    · rfl
    · rw [exitEdges, List.map_map, List.map_map]
      rfl
  unfold scopeEdges
  dsimp only
  rw [List.map_append, List.map_append, hentry, hexit, hauthored, List.map_append]

/-- The names an edge of the scope may leave besides its authored sources: includes, and the
terminal nodes that exits leave from. -/
theorem mem_generatedSources {included : Bool} (hnames : ScopeNames workflow)
    (hvalid : ScopeValid workflow included) {name : String}
    (h : name ∈ workflow.includes.mounts.map Prod.fst ++
      if path = "" then [] else workflow.exits.map Prod.snd) :
    isAuthoredName name = true ∧ (name ∈ workflow.nodes.map Prod.fst →
      name ∉ workflow.edges.map WorkflowEdge.source) := by
  rcases List.mem_append.1 h with hmount | hexit
  · have hname := (mounts_names workflow.includes).subset hmount
    exact ⟨hnames.includes name hname, fun hnode => absurd hname (hnames.apart name hnode)⟩
  · split at hexit
    · cases hexit
    · obtain ⟨exit, hmem, rfl⟩ := List.mem_map.1 hexit
      obtain ⟨hnode, hterminal⟩ := hvalid.exits exit hmem
      exact ⟨hnames.nodes _ hnode, fun _ => hterminal⟩

theorem nodup_scopeSources {included : Bool} (hshape : workflow.IsShapeValid)
    (hmounted : MountedNames workflow) (hvalid : ScopeValid workflow included) :
    ((scopeEdges (path, workflow)).map WorkflowEdge.source).Nodup := by
  have hnames := hshape.names
  have hfroms : ∀ source ∈ workflow.edges.map WorkflowEdge.source,
      IsAuthoredFrom workflow source := by
    intro source hsource
    obtain ⟨edge, hedge, rfl⟩ := List.mem_map.1 hsource
    exact hvalid.froms edge hedge
  rw [scopeEdges_sources, List.nodup_append]
  refine ⟨nodup_qualify (fun _ h => (mem_generatedSources hnames hvalid h).1) ?_, ?_, ?_⟩
  · rw [List.nodup_append]
    refine ⟨hshape.includes.sublist (mounts_names workflow.includes), ?_, ?_⟩
    · split
      · exact List.nodup_nil
      · exact hvalid.exitNodes
    · intro name hname node hnode heq
      split at hnode
      · cases hnode
      · obtain ⟨exit, hmem, rfl⟩ := List.mem_map.1 hnode
        exact hnames.apart _ (hvalid.exits exit hmem).1
          (heq ▸ (mounts_names workflow.includes).subset hname)
  · refine List.Nodup.map_on ?_ hvalid.sources
    intro source hsource source' hsource' heq
    exact qualifySource_inj hnames hmounted (hfroms source hsource) (hfroms source' hsource') heq
  · intro id hid id' hid' heq
    obtain ⟨name, hname, rfl⟩ := List.mem_map.1 hid
    obtain ⟨source, hsource, rfl⟩ := List.mem_map.1 hid'
    obtain ⟨hauthored, hterminal⟩ := mem_generatedSources hnames hvalid hname
    rcases qualifySource_cases hmounted (hfroms source hsource) with ⟨hnode, hqualified⟩ |
      ⟨mount, exitName, -, -, hexit, hqualified⟩ <;>
    rw [hqualified] at heq
    · obtain ⟨-, rfl⟩ := (qualify_inj (isNodeId_of_authored hauthored)
        (isNodeId_of_authored (hnames.nodes source hnode))).1 heq
      exact hterminal hnode hsource
    · exact qualify_ne_exitNodeId hauthored hexit heq

/-- Every source of a scope stands under its path. -/
theorem sourceOf_scopeEdges {included : Bool} (hnames : ScopeNames workflow)
    (hmounted : MountedNames workflow) (hvalid : ScopeValid workflow included) {source : String}
    (h : source ∈ (scopeEdges (path, workflow)).map WorkflowEdge.source) : SourceOf path source := by
  rw [scopeEdges_sources, List.mem_append] at h
  rcases h with h | h
  · obtain ⟨name, hname, rfl⟩ := List.mem_map.1 h
    exact .name (mem_generatedSources hnames hvalid hname).1
  · obtain ⟨source, hsource, rfl⟩ := List.mem_map.1 h
    obtain ⟨edge, hedge, rfl⟩ := List.mem_map.1 hsource
    rcases qualifySource_cases hmounted (hvalid.froms edge hedge) with ⟨hnode, hqualified⟩ |
      ⟨mount, exitName, -, hmount, hexit, hqualified⟩ <;>
    rw [hqualified]
    · exact .name (hnames.nodes _ hnode)
    · exact .exit (hnames.includes _ hmount) hexit

end

/-! ## The whole graph -/

/-- The mounted definitions of a scope are scopes themselves. -/
theorem mounts_mounted {includes : AuthoredIncludes} {path name : String}
    {child : AuthoredWorkflow} (h : (name, child) ∈ includes.mounts) :
    (qualify path name, child) ∈ includes.mounted path := by
  induction includes using AuthoredIncludes.mounts.induct with
  | case1 => cases h
  | case2 other mapsSettings workflow rest ih =>
      rw [AuthoredIncludes.mounted, List.mem_append]
      rcases List.mem_cons.1 h with heq | hrest
      · cases heq
        rw [mounted_eq]
        exact .inl List.mem_cons_self
      · exact .inr (ih hrest)
  | case3 other reference rest ih => exact ih h

mutual

/-- What a scope mounts is a scope of the same tree. -/
theorem mounted_closed {workflow : AuthoredWorkflow} {path : String}
    {scope : String × AuthoredWorkflow} (hscope : scope ∈ workflow.mounted path) {name : String}
    {child : AuthoredWorkflow} (hchild : (name, child) ∈ scope.2.includes.mounts) :
    (qualify scope.1 name, child) ∈ workflow.mounted path := by
  match workflow with
  | .mk _ _ _ _ _ _ _ includes =>
      rw [mounted_eq] at hscope ⊢
      refine List.mem_cons_of_mem _ ?_
      rcases List.mem_cons.1 hscope with rfl | hbelow
      · exact mounts_mounted hchild
      · have hbelow : scope ∈ includes.mounted path := hbelow
        exact includesMounted_closed hbelow hchild

theorem includesMounted_closed {includes : AuthoredIncludes} {path : String}
    {scope : String × AuthoredWorkflow} (hscope : scope ∈ includes.mounted path) {name : String}
    {child : AuthoredWorkflow} (hchild : (name, child) ∈ scope.2.includes.mounts) :
    (qualify scope.1 name, child) ∈ includes.mounted path := by
  match includes with
  | .none => exact absurd hscope List.not_mem_nil
  | .unresolved name' _ rest =>
      have hscope : scope ∈ rest.mounted path := hscope
      exact includesMounted_closed hscope hchild
  | .mount name' _ workflow rest =>
      rw [AuthoredIncludes.mounted] at hscope ⊢
      rcases List.mem_append.1 hscope with hscope | hscope
      · exact List.mem_append_left _ (mounted_closed hscope hchild)
      · exact List.mem_append_right _ (includesMounted_closed hscope hchild)

end

/-- The ids of all scopes. -/
def AuthoredWorkflow.nodeIds (workflow : AuthoredWorkflow) : List String :=
  (workflow.mounted "").flatMap scopeIds

/-- The edges of all scopes. -/
def AuthoredWorkflow.graphEdges (workflow : AuthoredWorkflow) : List WorkflowEdge :=
  (workflow.mounted "").flatMap scopeEdges

/-- A compiled workflow is made of the contributions of the scopes. -/
structure CompiledOf (workflow : AuthoredWorkflow) (compiled : CompiledWorkflow) : Prop where
  name : compiled.name = workflow.name
  startAt : compiled.startAt = workflow.startAt
  maxSteps : compiled.maxSteps = workflow.maxSteps
  valid : ∀ scope ∈ workflow.mounted "", ScopeValid scope.2 (decide (scope.1 ≠ ""))
  resolved : ∀ scope ∈ workflow.mounted "",
    scope.2.includes.names = scope.2.includes.mounts.map Prod.fst
  nodup : (compiled.nodes.map Prod.fst).Nodup
  nodes : ∀ id, id ∈ compiled.nodes.map Prod.fst ↔ id ≠ "__proto__" ∧ id ∈ workflow.nodeIds
  edges : compiled.edges.Perm workflow.graphEdges

section

variable {workflow : AuthoredWorkflow} {compiled : CompiledWorkflow}

theorem compiled_mounted (hshape : workflow.ShapeValid)
    (h : compileWorkflowDefinition workflow = .ok compiled) : CompiledOf workflow compiled := by
  simp only [compileWorkflowDefinition, bind_ok, pure_ok] at h
  obtain ⟨_, -, mounted, hmounted, rfl⟩ := h
  have hspec := mountWorkflow_mounted (fun scope hscope => (hshape scope hscope).names) hmounted
  have hnamed : ExitsNamed {} := fun _ h => absurd h List.not_mem_nil
  constructor
  · rfl
  · rfl
  · rfl
  · exact hspec.valid
  · exact hspec.resolved
  · exact hspec.nodup List.nodup_nil
  · intro id
    rw [hspec.nodes, AuthoredWorkflow.nodeIds, mounted_eq workflow, List.flatMap_cons, scopeIds,
      if_pos rfl, List.append_nil]
    simp only [List.map_nil, List.not_mem_nil, or_false]
    rfl
  · refine (hspec.edges hnamed).trans ?_
    rw [AuthoredWorkflow.graphEdges, mounted_eq workflow, List.flatMap_cons, scopeEdges, if_pos rfl,
      List.append_nil]
    exact List.Perm.refl _

/-- The whole tree has valid names. -/
theorem AuthoredWorkflow.ShapeValid.mountedNames (hshape : workflow.ShapeValid)
    {scope : String × AuthoredWorkflow} (hscope : scope ∈ workflow.mounted "") :
    MountedNames scope.2 :=
  fun _ hmount => (hshape _ (mounted_closed hscope hmount)).names

theorem nodup_paths (hshape : workflow.ShapeValid) : ((workflow.mounted "").map Prod.fst).Nodup :=
  nodup_mounted (fun scope hscope => (hshape scope hscope).names)
    fun scope hscope => (hshape scope hscope).includes

/-- Lists of different scopes are disjoint if their items tell the path. -/
theorem nodup_flatMap_scopes {α : Type} (Of : String → α → Prop) (hshape : workflow.ShapeValid)
    {f : String × AuthoredWorkflow → List α}
    (hown : ∀ scope ∈ workflow.mounted "", (f scope).Nodup)
    (hof : ∀ scope ∈ workflow.mounted "", ∀ x ∈ f scope, Of scope.1 x)
    (hpath : ∀ path path' x, Of path x → Of path' x → path = path') :
    ((workflow.mounted "").flatMap f).Nodup := by
  rw [List.nodup_flatMap]
  refine ⟨hown, ?_⟩
  have hpaths := List.pairwise_map.1 (nodup_paths hshape)
  refine hpaths.imp_of_mem ?_
  intro scope scope' hscope hscope' hne x hx hx'
  exact hne (hpath _ _ x (hof scope hscope x hx) (hof scope' hscope' x hx'))

theorem nodup_nodeIds (hshape : workflow.ShapeValid) : workflow.nodeIds.Nodup := by
  refine nodup_flatMap_scopes (fun path id => ∃ name, isNodeId name = true ∧
    id = qualify path name) hshape (fun scope hscope => nodup_scopeIds (hshape scope hscope))
    (fun scope hscope id hid => mem_scopeIds (hshape scope hscope).names hid) ?_
  rintro path path' _ ⟨name, hname, rfl⟩ ⟨name', hname', heq⟩
  exact ((qualify_inj hname hname').1 heq).1

theorem CompiledOf.nodeIds (hspec : CompiledOf workflow compiled) (hshape : workflow.ShapeValid) :
    (compiled.nodes.map Prod.fst).Perm
      (workflow.nodeIds.filter fun id => decide (id ≠ "__proto__")) := by
  refine (List.perm_ext_iff_of_nodup hspec.nodup ((nodup_nodeIds hshape).filter _)).2 ?_
  intro id
  rw [hspec.nodes, List.mem_filter, decide_eq_true_eq, and_comm]

theorem CompiledOf.sources (hspec : CompiledOf workflow compiled) (hshape : workflow.ShapeValid) :
    (compiled.edges.map WorkflowEdge.source).Nodup := by
  rw [(hspec.edges.map WorkflowEdge.source).nodup_iff, AuthoredWorkflow.graphEdges,
    List.map_flatMap]
  refine nodup_flatMap_scopes SourceOf hshape ?_ ?_ fun _ _ _ h h' => h.path_eq h'
  · intro scope hscope
    exact nodup_scopeSources (hshape scope hscope) (hshape.mountedNames hscope)
      (hspec.valid scope hscope)
  · intro scope hscope source hsource
    exact sourceOf_scopeEdges (hshape scope hscope).names (hshape.mountedNames hscope)
      (hspec.valid scope hscope) hsource

end

end PiWorkflows
