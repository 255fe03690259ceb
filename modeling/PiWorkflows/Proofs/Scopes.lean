import PiWorkflows.Proofs.Compiled
import PiWorkflows.Workflows.Validation

/-!
# Scopes of a tree of definitions

Compilation walks a tree of mounted definitions, and `AuthoredWorkflow.mounted`
lists its scopes. The checks of the shape and of `validateAuthoredWorkflow` are
about one definition at a time; `ScopeNames` and `ScopeValid` are what they say.

A scope is known by its path. A qualified id determines the path it stands under
(`qualify_inj`), and no two scopes have one path (`nodup_mounted`).
-/

namespace PiWorkflows

open Fallible

/-! ## Paths -/

/-- The segments of a scope path, of which the root has none. -/
def pathSegments (path : String) : List String :=
  if path = "" then [] else splitText '/' path

theorem splitText_ne_nil (sep : Char) (text : String) : splitText sep text ≠ [] := by
  rw [splitText, ne_eq, List.map_eq_nil_iff]
  exact List.splitOn_ne_nil sep text.toList

theorem pathSegments_injective : Function.Injective pathSegments := by
  intro path path' h
  unfold pathSegments at h
  split at h
  · next hpath =>
      split at h
      · next hpath' => rw [hpath, hpath']
      · exact absurd h.symm (splitText_ne_nil '/' path')
  · split at h
    · exact absurd h (splitText_ne_nil '/' path)
    · rw [← joinText_splitText '/' path, h, joinText_splitText]

theorem isNodeId_ne_empty {name : String} (h : isNodeId name = true) : name ≠ "" := by
  rintro rfl
  cases h

theorem qualify_ne_empty {path name : String} (h : isNodeId name = true) :
    qualify path name ≠ "" := by
  unfold qualify
  split
  · exact isNodeId_ne_empty h
  · intro hempty
    have hlength := congrArg String.toList hempty
    rw [String.toList_append] at hlength
    exact isNodeId_ne_empty h (String.toList_inj.1 (List.append_eq_nil_iff.1 hlength).2)

theorem pathSegments_qualify (path : String) {name : String} (h : isNodeId name = true) :
    pathSegments (qualify path name) = pathSegments path ++ [name] := by
  rw [pathSegments, if_neg (qualify_ne_empty h)]
  unfold qualify pathSegments
  split
  · exact splitText_of_notMem (isNodeId_noSlash h)
  · show splitText '/' (path ++ String.singleton '/' ++ name) = _
    rw [splitText_append, splitText_of_notMem (isNodeId_noSlash h)]

/-- A qualified id determines the path and the name. -/
theorem qualify_inj {path path' name name' : String} (hname : isNodeId name = true)
    (hname' : isNodeId name' = true) :
    qualify path name = qualify path' name' ↔ path = path' ∧ name = name' := by
  constructor
  · intro h
    have hsegments := congrArg pathSegments h
    rw [pathSegments_qualify path hname, pathSegments_qualify path' hname'] at hsegments
    obtain ⟨hpath, hlast⟩ := List.append_inj' hsegments rfl
    exact ⟨pathSegments_injective hpath, List.singleton_injective hlast⟩
  · rintro ⟨rfl, rfl⟩
    rfl

theorem isNodeId_exit {exitName : String} (h : isNodeId exitName = true) :
    isNodeId ("__piw_exit_" ++ exitName) = true := by
  unfold isNodeId at h
  split at h
  · cases h
  · next c cs hlist =>
      rw [Bool.and_eq_true] at h
      have htext : ("__piw_exit_" ++ exitName).toList =
          '_' :: ("_piw_exit_".toList ++ c :: cs) := by
        rw [String.toList_append, hlist]
        rfl
      unfold isNodeId
      rw [htext]
      simp only [List.all_append, List.all_cons, Bool.and_eq_true, h.2, and_true]
      refine ⟨by decide, by decide, ?_⟩
      have hfirst := h.1
      simp only [Char.isAlphanum, Bool.or_eq_true, beq_iff_eq] at hfirst ⊢
      exact hfirst.elim (fun halpha => .inl (.inl (.inl halpha))) fun hunderscore => .inl (.inr hunderscore)

theorem exitNodeId_inj {path path' exitName exitName' : String} (h : isNodeId exitName = true)
    (h' : isNodeId exitName' = true) :
    exitNodeId path exitName = exitNodeId path' exitName' ↔ path = path' ∧ exitName = exitName' := by
  unfold exitNodeId
  rw [qualify_inj (isNodeId_exit h) (isNodeId_exit h')]
  refine and_congr_right fun _ => ⟨fun heq => ?_, fun heq => heq ▸ rfl⟩
  have hlist := congrArg String.toList heq
  rw [String.toList_append, String.toList_append] at hlist
  exact String.toList_inj.1 (List.append_cancel_left hlist)

/-- No authored name stands where an exit has its reserved one. -/
theorem qualify_ne_exitNodeId {path path' name exitName : String} (hname : isAuthoredName name = true)
    (hexit : isAuthoredName exitName = true) : qualify path name ≠ exitNodeId path' exitName := by
  intro h
  have hreserved : endsReserved (exitNodeId path' exitName) = true := endsReserved_exit hexit
  rw [← h, endsReserved_entry hname] at hreserved
  cases hreserved

/-! ## Scopes -/

mutual

/-- Every mounted definition with its scope path. -/
def AuthoredWorkflow.mounted : AuthoredWorkflow → String → List (String × AuthoredWorkflow)
  | .mk name startAt maxSteps settings nodes edges exits includes, path =>
      (path, .mk name startAt maxSteps settings nodes edges exits includes) :: includes.mounted path

def AuthoredIncludes.mounted : AuthoredIncludes → String → List (String × AuthoredWorkflow)
  | .none, _ => []
  | .mount name _ child rest, path => child.mounted (qualify path name) ++ rest.mounted path
  | .unresolved _ _ rest, path => rest.mounted path

end

/-- The includes that were resolved. -/
def AuthoredIncludes.mounts : AuthoredIncludes → List (String × AuthoredWorkflow)
  | .none => []
  | .mount name _ child rest => (name, child) :: rest.mounts
  | .unresolved _ _ rest => rest.mounts

/-- What `defineWorkflow` checked of a definition; the names of a record are distinct. -/
structure AuthoredWorkflow.IsShapeValid (workflow : AuthoredWorkflow) : Prop where
  nodes : (workflow.nodes.map Prod.fst).Nodup
  includes : workflow.includes.names.Nodup
  exits : (workflow.exits.map Prod.fst).Nodup
  shape : assertValidWorkflowDefinitionShape workflow.shape false = .ok ()

/-- Every definition of the tree has a valid shape. -/
def AuthoredWorkflow.ShapeValid (workflow : AuthoredWorkflow) : Prop :=
  ∀ scope ∈ workflow.mounted "", scope.2.IsShapeValid

section

variable {includes : AuthoredIncludes} {name : String} {child : AuthoredWorkflow}

theorem mounts_names (includes : AuthoredIncludes) :
    (includes.mounts.map Prod.fst).Sublist includes.names := by
  induction includes using AuthoredIncludes.mounts.induct with
  | case1 => exact List.Sublist.slnil
  | case2 name mapsSettings child rest ih => exact ih.cons_cons name
  | case3 name reference rest ih => exact ih.cons name

theorem mem_names_of_mounts (h : (name, child) ∈ includes.mounts) : name ∈ includes.names :=
  (mounts_names includes).subset (List.mem_map_of_mem (f := Prod.fst) h)

theorem mounts_of_child? (h : includes.child? name = some child) :
    (name, child) ∈ includes.mounts := by
  induction includes using AuthoredIncludes.mounts.induct with
  | case1 => cases h
  | case2 other mapsSettings workflow rest ih =>
      rw [AuthoredIncludes.child?] at h
      rw [AuthoredIncludes.mounts]
      split at h
      · next heq =>
          cases h
          rw [heq]
          exact List.mem_cons_self
      · exact List.mem_cons_of_mem _ (ih h)
  | case3 other reference rest ih =>
      rw [AuthoredIncludes.child?] at h
      rw [AuthoredIncludes.mounts]
      split at h
      · cases h
      · exact ih h

end

/-! ## What the shape says of names -/

structure ScopeNames (workflow : AuthoredWorkflow) : Prop where
  nodes : ∀ id ∈ workflow.nodes.map Prod.fst, isAuthoredName id = true
  includes : ∀ name ∈ workflow.includes.names, isAuthoredName name = true
  exits : ∀ exit ∈ workflow.exits, isAuthoredName exit.1 = true
  apart : ∀ id ∈ workflow.nodes.map Prod.fst, id ∉ workflow.includes.names

theorem AuthoredWorkflow.IsShapeValid.names {workflow : AuthoredWorkflow}
    (h : workflow.IsShapeValid) : ScopeNames workflow := by
  obtain ⟨-, -, -, -, -, hnodes, hincludes, hexits, -⟩ :=
    assertValidWorkflowDefinitionShape_ok.1 h.shape
  have hinclude : ∀ name ∈ workflow.includes.names, isAuthoredName name = true ∧
      name ∉ workflow.nodes.map Prod.fst := by
    intro name hname
    have hchecked := hincludes name hname
    simp only [assertValidInclude, requireShape, bind_ok, require_ok, exists_const] at hchecked
    exact hchecked
  constructor
  · intro id hid
    obtain ⟨⟨hsegments, hone⟩, -⟩ := assertValidNodeId_ok.1 (hnodes id hid)
    obtain ⟨segment, hsegment⟩ := List.length_eq_one_iff.1 (hone rfl)
    have hsame : segment = id := by
      rw [← joinText_splitText '/' id, hsegment]
      simp [joinText]
    obtain ⟨hnode, hreserved⟩ := hsegments segment (hsegment ▸ List.mem_singleton_self segment)
    exact isAuthoredName_iff.2 ⟨hsame ▸ hnode, hsame ▸ hreserved rfl⟩
  · exact fun name hname => (hinclude name hname).1
  · intro exit hexit
    have hchecked := hexits exit hexit
    simp only [assertValidExit, requireShape, bind_ok, require_ok, exists_const] at hchecked
    exact hchecked.1
  · exact fun id hid hname => (hinclude id hname).2 hid

/-! ## What the checks of a definition say -/

section

variable {workflow : AuthoredWorkflow}

theorem hasOwn_iff {α : Type} {record : List (String × α)} {key : String} :
    hasOwn record key = true ↔ key ∈ record.map Prod.fst := by
  rw [hasOwn, Option.isSome_iff_ne_none, ne_eq, List.lookup_eq_none_iff, not_forall]
  simp [List.mem_map]

/-- Where an edge of the definition may start. -/
def IsAuthoredFrom (workflow : AuthoredWorkflow) (source : String) : Prop :=
  source ∈ workflow.nodes.map Prod.fst ∨
    ∃ mount exitName child, parseExitReference source = some (mount, exitName) ∧
      (mount, child) ∈ workflow.includes.mounts ∧ exitName ∈ child.exits.map Prod.fst

theorem assertAuthoredFrom_ok {source : String} {r : PUnit}
    (h : assertAuthoredFrom workflow source = .ok r) : IsAuthoredFrom workflow source := by
  simp only [assertAuthoredFrom, require_ok, hasOwn_iff] at h
  rcases h with hnode | hexit
  · exact .inl hnode
  · rw [Option.any_eq_true] at hexit
    obtain ⟨⟨mount, exitName⟩, hparsed, hexit⟩ := hexit
    rw [Option.any_eq_true] at hexit
    obtain ⟨child, hchild, hdeclared⟩ := hexit
    exact .inr ⟨mount, exitName, child, hparsed, mounts_of_child? hchild, hasOwn_iff.1 hdeclared⟩

theorem validateEdges_ok {edges : List WorkflowEdge} {outgoing outgoing' : List String}
    (h : validateEdges workflow edges outgoing = .ok outgoing') :
    (∀ edge ∈ edges, IsAuthoredFrom workflow edge.source ∧ edge.source ∉ outgoing ∧
      ∀ target ∈ edge.targets, isAuthoredTarget workflow target = true) ∧
    (edges.map WorkflowEdge.source).Nodup ∧
    ∀ id, id ∈ outgoing' ↔ id ∈ outgoing ∨ id ∈ edges.map WorkflowEdge.source := by
  induction edges generalizing outgoing with
  | nil =>
      simp only [validateEdges, pure_ok] at h
      subst h
      simp
  | cons edge rest ih =>
      simp only [validateEdges, bind_ok, require_ok] at h
      obtain ⟨_, hnew, _, hsource, targets, htargets, hrest⟩ := h
      obtain ⟨hedges, hnodup, hout⟩ := ih hrest
      refine ⟨?_, ?_, ?_⟩
      · rintro other (_ | ⟨_, hother⟩)
        · refine ⟨assertAuthoredFrom_ok hsource, hnew, ?_⟩
          intro target htarget
          obtain ⟨_, -, hknown⟩ := ok_of_mapM htargets target htarget
          rw [assertAuthoredTo, require_ok] at hknown
          exact hknown
        · obtain ⟨hfrom, hfresh, hleads⟩ := hedges other hother
          exact ⟨hfrom, fun hmem => hfresh (List.mem_cons_of_mem _ hmem), hleads⟩
      · rw [List.map_cons, List.nodup_cons]
        refine ⟨?_, hnodup⟩
        intro hmem
        obtain ⟨other, hother, heq⟩ := List.mem_map.1 hmem
        exact (hedges other hother).2.1 (heq ▸ List.mem_cons_self)
      · intro id
        rw [hout, List.mem_cons, List.map_cons, List.mem_cons]
        tauto

theorem validateExits_ok {outgoing : List String} {exits : List (String × String)}
    {exitNodes exitNodes' : List String}
    (h : validateExits workflow outgoing exits exitNodes = .ok exitNodes') :
    (∀ exit ∈ exits, exit.2 ∈ workflow.nodes.map Prod.fst ∧ exit.2 ∉ outgoing ∧
      exit.2 ∉ exitNodes) ∧
    (exits.map Prod.snd).Nodup ∧
    ∀ id, id ∈ exitNodes' ↔ id ∈ exitNodes ∨ id ∈ exits.map Prod.snd := by
  induction exits generalizing exitNodes with
  | nil =>
      simp only [validateExits, pure_ok] at h
      subst h
      simp
  | cons exit rest ih =>
      obtain ⟨exitName, source⟩ := exit
      simp only [validateExits, bind_ok, require_ok, hasOwn_iff] at h
      obtain ⟨_, hnode, _, hterminal, _, hnew, hrest⟩ := h
      obtain ⟨hexits, hnodup, hout⟩ := ih hrest
      refine ⟨?_, ?_, ?_⟩
      · rintro other (_ | ⟨_, hother⟩)
        · exact ⟨hnode, hterminal, hnew⟩
        · obtain ⟨hknown, hlast, hfresh⟩ := hexits other hother
          exact ⟨hknown, hlast, fun hmem => hfresh (List.mem_cons_of_mem _ hmem)⟩
      · rw [List.map_cons, List.nodup_cons]
        refine ⟨?_, hnodup⟩
        intro hmem
        obtain ⟨other, hother, heq⟩ := List.mem_map.1 hmem
        exact (hexits other hother).2.2 (heq ▸ List.mem_cons_self)
      · intro id
        rw [hout, List.mem_cons, List.map_cons, List.mem_cons]
        tauto

/-- What a definition that passed `validateAuthoredWorkflow` is like. -/
structure ScopeValid (workflow : AuthoredWorkflow) (included : Bool) : Prop where
  start : workflow.startAt ∈ workflow.nodes.map Prod.fst
  sources : (workflow.edges.map WorkflowEdge.source).Nodup
  froms : ∀ edge ∈ workflow.edges, IsAuthoredFrom workflow edge.source
  targets : ∀ edge ∈ workflow.edges, ∀ target ∈ edge.targets,
    isAuthoredTarget workflow target = true
  exits : ∀ exit ∈ workflow.exits, exit.2 ∈ workflow.nodes.map Prod.fst ∧
    exit.2 ∉ workflow.edges.map WorkflowEdge.source
  exitNodes : (workflow.exits.map Prod.snd).Nodup
  terminals : included = true → ∀ id ∈ workflow.nodes.map Prod.fst,
    id ∈ workflow.edges.map WorkflowEdge.source ∨ id ∈ workflow.exits.map Prod.snd
  reachable : ∀ id ∈ workflow.nodes.map Prod.fst ++ workflow.includes.names,
    Relation.ReflTransGen (Worklist.Next (authoredSuccessors workflow)) workflow.startAt id

theorem validateAuthoredWorkflow_ok {included : Bool} {r : PUnit}
    (h : validateAuthoredWorkflow workflow included = .ok r) : ScopeValid workflow included := by
  simp only [validateAuthoredWorkflow, bind_ok, require_ok, hasOwn_iff] at h
  obtain ⟨_, hstart, outgoing, hedges, exitNodes, hexits, _, hterminals, hreachable⟩ := h
  obtain ⟨hedges, hsources, hout⟩ := validateEdges_ok hedges
  obtain ⟨hexits, hexitNodes, hout'⟩ := validateExits_ok hexits
  simp only [List.not_mem_nil, false_or] at hout hout'
  constructor
  · exact hstart
  · exact hsources
  · exact fun edge hedge => (hedges edge hedge).1
  · exact fun edge hedge => (hedges edge hedge).2.2
  · exact fun exit hexit => ⟨(hexits exit hexit).1, fun h => (hexits exit hexit).2.1 ((hout _).2 h)⟩
  · exact hexitNodes
  · intro hincluded id hid
    by_contra hnone
    rw [not_or, ← hout, ← hout'] at hnone
    have hlisted : id ∈ (workflow.nodes.map Prod.fst).filter
        fun nodeId => decide (nodeId ∉ outgoing ∧ nodeId ∉ exitNodes) :=
      List.mem_filter.2 ⟨hid, decide_eq_true hnone⟩
    rw [hterminals hincluded] at hlisted
    cases hlisted
  · intro id hid
    have hseen : id ∈ authoredReachable workflow := by
      by_contra hunseen
      have hlisted : id ∈ (workflow.nodes.map Prod.fst ++ workflow.includes.names).filter
          fun id => decide (id ∉ authoredReachable workflow) :=
        List.mem_filter.2 ⟨hid, decide_eq_true hunseen⟩
      rw [hreachable] at hlisted
      cases hlisted
    refine Worklist.visit_sound (fun _ h => h) ?_ id hseen
    intro value hvalue
    rw [List.mem_singleton.1 hvalue]

end

/-! ## Scopes have their own paths -/

theorem mounted_eq (workflow : AuthoredWorkflow) (path : String) :
    workflow.mounted path = (path, workflow) :: workflow.includes.mounted path := by
  cases workflow
  rfl

mutual

/-- What holds of the root and passes from a scope to what it mounts holds of every scope. -/
theorem mounted_induct {P : String × AuthoredWorkflow → Prop} {workflow : AuthoredWorkflow}
    {path : String} (hroot : P (path, workflow))
    (hstep : ∀ scope ∈ workflow.mounted path, P scope →
      ∀ mount ∈ scope.2.includes.mounts, P (qualify scope.1 mount.1, mount.2)) :
    ∀ scope ∈ workflow.mounted path, P scope := by
  rw [mounted_eq] at hstep ⊢
  obtain ⟨hown, hstep⟩ := List.forall_mem_cons.1 hstep
  refine List.forall_mem_cons.2 ⟨hroot, ?_⟩
  match workflow with
  | .mk _ _ _ _ _ _ _ includes => exact includesMounted_induct (hown hroot) hstep

theorem includesMounted_induct {P : String × AuthoredWorkflow → Prop} {includes : AuthoredIncludes}
    {path : String} (hroot : ∀ mount ∈ includes.mounts, P (qualify path mount.1, mount.2))
    (hstep : ∀ scope ∈ includes.mounted path, P scope →
      ∀ mount ∈ scope.2.includes.mounts, P (qualify scope.1 mount.1, mount.2)) :
    ∀ scope ∈ includes.mounted path, P scope := by
  match includes with
  | .none => exact fun _ h => absurd h List.not_mem_nil
  | .unresolved name _ rest =>
      have hrest : ∀ scope ∈ rest.mounted path, P scope := includesMounted_induct hroot hstep
      exact hrest
  | .mount name _ child rest =>
      rw [AuthoredIncludes.mounts, List.forall_mem_cons] at hroot
      rw [AuthoredIncludes.mounted, List.forall_mem_append] at hstep
      exact List.forall_mem_append.2 ⟨mounted_induct hroot.1 hstep.1,
        includesMounted_induct hroot.2 hstep.2⟩

end

mutual

theorem mounted_below {workflow : AuthoredWorkflow} {path : String}
    (hnames : ∀ scope ∈ workflow.mounted path, ScopeNames scope.2) :
    ∀ scope ∈ workflow.mounted path, pathSegments path <+: pathSegments scope.1 := by
  rw [mounted_eq] at hnames ⊢
  obtain ⟨hown, hnames⟩ := List.forall_mem_cons.1 hnames
  refine List.forall_mem_cons.2 ⟨List.prefix_refl _, ?_⟩
  intro scope hscope
  match workflow with
  | .mk _ _ _ _ _ _ _ includes =>
      obtain ⟨name, -, hbelow⟩ := includesMounted_below hown.includes hnames scope hscope
      exact (List.prefix_append _ _).trans hbelow

theorem includesMounted_below {includes : AuthoredIncludes} {path : String}
    (hincludes : ∀ name ∈ includes.names, isAuthoredName name = true)
    (hnames : ∀ scope ∈ includes.mounted path, ScopeNames scope.2) :
    ∀ scope ∈ includes.mounted path, ∃ name ∈ includes.names,
      pathSegments path ++ [name] <+: pathSegments scope.1 := by
  match includes with
  | .none => exact fun _ h => absurd h List.not_mem_nil
  | .unresolved name _ rest =>
      rw [AuthoredIncludes.names, List.forall_mem_cons] at hincludes
      intro scope hscope
      obtain ⟨name, hname, hbelow⟩ := includesMounted_below hincludes.2 hnames scope hscope
      exact ⟨name, List.mem_cons_of_mem _ hname, hbelow⟩
  | .mount name _ child rest =>
      rw [AuthoredIncludes.names, List.forall_mem_cons] at hincludes
      rw [AuthoredIncludes.mounted, List.forall_mem_append] at hnames
      rw [AuthoredIncludes.mounted]
      intro scope hscope
      rcases List.mem_append.1 hscope with hscope | hscope
      · refine ⟨name, List.mem_cons_self, ?_⟩
        rw [← pathSegments_qualify path (isAuthoredName_iff.1 hincludes.1).1]
        exact mounted_below hnames.1 scope hscope
      · obtain ⟨name, hname, hbelow⟩ := includesMounted_below hincludes.2 hnames.2 scope hscope
        exact ⟨name, List.mem_cons_of_mem _ hname, hbelow⟩

end

mutual

/-- No two scopes are mounted at one path. -/
theorem nodup_mounted {workflow : AuthoredWorkflow} {path : String}
    (hnames : ∀ scope ∈ workflow.mounted path, ScopeNames scope.2)
    (hunique : ∀ scope ∈ workflow.mounted path, scope.2.includes.names.Nodup) :
    ((workflow.mounted path).map Prod.fst).Nodup := by
  rw [mounted_eq] at hnames hunique ⊢
  obtain ⟨hown, hnames⟩ := List.forall_mem_cons.1 hnames
  obtain ⟨hunique', hunique⟩ := List.forall_mem_cons.1 hunique
  rw [List.map_cons, List.nodup_cons]
  match workflow with
  | .mk _ _ _ _ _ _ _ includes =>
      refine ⟨?_, nodup_includesMounted hown.includes hunique' hnames hunique⟩
      intro hmem
      obtain ⟨scope, hscope, hpath⟩ := List.mem_map.1 hmem
      obtain ⟨name, -, hbelow⟩ := includesMounted_below hown.includes hnames scope hscope
      have hlength := hbelow.length_le
      rw [hpath, List.length_append, List.length_singleton] at hlength
      exact Nat.not_succ_le_self _ hlength

theorem nodup_includesMounted {includes : AuthoredIncludes} {path : String}
    (hincludes : ∀ name ∈ includes.names, isAuthoredName name = true)
    (hdistinct : includes.names.Nodup)
    (hnames : ∀ scope ∈ includes.mounted path, ScopeNames scope.2)
    (hunique : ∀ scope ∈ includes.mounted path, scope.2.includes.names.Nodup) :
    ((includes.mounted path).map Prod.fst).Nodup := by
  match includes with
  | .none => exact List.nodup_nil
  | .unresolved name _ rest =>
      rw [AuthoredIncludes.names, List.forall_mem_cons] at hincludes
      rw [AuthoredIncludes.names, List.nodup_cons] at hdistinct
      show ((rest.mounted path).map Prod.fst).Nodup
      exact nodup_includesMounted hincludes.2 hdistinct.2 hnames hunique
  | .mount name _ child rest =>
      rw [AuthoredIncludes.names, List.forall_mem_cons] at hincludes
      rw [AuthoredIncludes.names, List.nodup_cons] at hdistinct
      rw [AuthoredIncludes.mounted, List.forall_mem_append] at hnames hunique
      rw [AuthoredIncludes.mounted, List.map_append, List.nodup_append]
      refine ⟨nodup_mounted hnames.1 hunique.1,
        nodup_includesMounted hincludes.2 hdistinct.2 hnames.2 hunique.2, ?_⟩
      -- A path below one include is not below another.
      intro p hp p' hp' heq
      obtain ⟨scope, hscope, rfl⟩ := List.mem_map.1 hp
      obtain ⟨scope', hscope', rfl⟩ := List.mem_map.1 hp'
      have hbelow := mounted_below hnames.1 scope hscope
      obtain ⟨name', hname', hbelow'⟩ :=
        includesMounted_below hincludes.2 hnames.2 scope' hscope'
      rw [pathSegments_qualify path (isAuthoredName_iff.1 hincludes.1).1, heq] at hbelow
      have hsame := List.prefix_of_prefix_length_le hbelow hbelow' (by simp)
      have hlast := List.append_cancel_left (hsame.eq_of_length (by simp))
      exact hdistinct.1 (List.singleton_injective hlast ▸ hname')

end

/-- Every scope but the root is mounted by another one. -/
theorem mounted_parent {workflow : AuthoredWorkflow} :
    ∀ scope ∈ workflow.mounted "", scope = ("", workflow) ∨
      ∃ parent ∈ workflow.mounted "", ∃ mount ∈ parent.2.includes.mounts,
        scope = (qualify parent.1 mount.1, mount.2) := by
  refine mounted_induct (.inl rfl) ?_
  exact fun scope hscope _ mount hmount => .inr ⟨scope, hscope, mount, hmount, rfl⟩

end PiWorkflows
