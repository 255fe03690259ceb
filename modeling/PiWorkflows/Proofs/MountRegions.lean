import PiWorkflows.Lib.Region
import PiWorkflows.Proofs.CompiledRecords

/-!
# A mounted definition is a region of the graph

Every edge of a compiled graph stays in one scope, goes from an entry to the
start of the child, or comes back from an exit of a child (`GraphStep`). So the
ids under a mount path are a region of the graph: its only entry is the entry
node, and it is left only from its exit nodes (`Composed.region`).
-/

namespace PiWorkflows

/-- The ways an edge of a compiled graph can go. -/
inductive GraphStep (workflow : AuthoredWorkflow) : String → String → Prop
  | own {path : String} {current : AuthoredWorkflow} {node target : String}
      (hscope : (path, current) ∈ workflow.mounted "") (hnode : node ∈ current.nodes.map Prod.fst)
      (htarget : isNodeId target = true) :
      GraphStep workflow (qualify path node) (qualify path target)
  | entry {m : Mounting} {target : String} (hm : m ∈ workflow.mountings "")
      (htarget : isNodeId target = true) : GraphStep workflow m.path (qualify m.path target)
  | exit {m : Mounting} {exit : String × String} {target : String}
      (hm : m ∈ workflow.mountings "") (hexit : exit ∈ m.child.exits)
      (htarget : isNodeId target = true) :
      GraphStep workflow (exitNodeId m.path exit.1) (qualify m.parentPath target)

/-- The ids at and below a mount path. -/
def Mounting.inside (m : Mounting) : Set String :=
  fun id => pathSegments m.path <+: pathSegments id

namespace Composed

variable {workflow : AuthoredWorkflow} {compiled : ExecutableWorkflow}

/-- An include of a scope is one of the mountings. -/
theorem mounting_of (h : Composed workflow compiled) {path name : String}
    {current child : AuthoredWorkflow} (hscope : (path, current) ∈ workflow.mounted "")
    (hmount : (name, child) ∈ current.includes.mounts) :
    ∃ m ∈ workflow.mountings "", m.parentPath = path ∧ m.name = name ∧ m.child = child := by
  have hname := isNodeId_of_authored
    ((h.shape _ hscope).names.includes _ (mem_names_of_mounts hmount))
  have hclosed := mounted_closed hscope hmount
  rw [mounted_mountings, List.mem_cons] at hclosed
  rcases hclosed with hroot | hbelow
  · exact absurd (Prod.mk.inj hroot).1 (qualify_ne_empty hname)
  · obtain ⟨m, hm, heq⟩ := List.mem_map.1 hbelow
    obtain ⟨hpath, hchild⟩ := Prod.mk.inj heq
    obtain ⟨hparent, hsame⟩ :=
      (qualify_inj (isNodeId_of_authored (h.mounting hm).name) hname).1 hpath
    exact ⟨m, hm, hparent, hsame, hchild⟩

theorem graphStep (h : Composed workflow compiled) {a b : String}
    (hnext : Worklist.Next (graphSuccessors compiled.edges) a b) : GraphStep workflow a b := by
  obtain ⟨edge, hedge, rfl, htarget⟩ := mem_graphSuccessors.1 hnext
  obtain ⟨⟨path, current⟩, hscope, hedge⟩ := List.mem_flatMap.1 (h.spec.edges.mem_iff.1 hedge)
  have hvalid := h.spec.valid _ hscope
  have hnames := (h.shape _ hscope).names
  rw [scopeEdges, List.mem_append, List.mem_append] at hedge
  rcases hedge with (hentry | hexit) | hauthored
  · obtain ⟨mount, hmount, rfl⟩ := List.mem_map.1 hentry
    obtain ⟨m, hm, hparent, hname, hchild⟩ := h.mounting_of hscope hmount
    obtain rfl := List.mem_singleton.1 htarget
    have hchildScope := mounted_closed hscope hmount
    have hstart := (h.spec.valid _ hchildScope).start
    have hpath : m.path = qualify path mount.1 := by rw [Mounting.path, hparent, hname]
    rw [WorkflowEdge.source, ← hpath]
    exact .entry hm (isNodeId_of_authored ((h.shape _ hchildScope).names.nodes _ hstart))
  · split at hexit
    · cases hexit
    · obtain ⟨exit, hmem, rfl⟩ := List.mem_map.1 hexit
      obtain rfl := List.mem_singleton.1 htarget
      exact .own hscope (hvalid.exits exit hmem).1
        (isNodeId_exit (isNodeId_of_authored (hnames.exits exit hmem)))
  · obtain ⟨authored, hmem, rfl⟩ := List.mem_map.1 hauthored
    rw [qualifyEdge_targets] at htarget
    obtain ⟨target, hmemTarget, rfl⟩ := List.mem_map.1 htarget
    have hknown := hvalid.targets authored hmem target hmemTarget
    rw [isAuthoredTarget, Bool.or_eq_true, hasOwn_iff, decide_eq_true_eq] at hknown
    have hid : isNodeId target = true :=
      isNodeId_of_authored (hknown.elim (hnames.nodes target) (hnames.includes target))
    rw [qualifyEdge_source]
    by_cases hnode : hasOwn current.nodes authored.source = true
    · rw [qualifySource, if_pos hnode]
      exact .own hscope (hasOwn_iff.1 hnode) hid
    · rcases hvalid.froms authored hmem with hmem' | ⟨mount, exitName, child, hparsed, hmount, hexit⟩
      · exact absurd (hasOwn_iff.2 hmem') hnode
      · obtain ⟨m, hm, hparent, hname, rfl⟩ := h.mounting_of hscope hmount
        obtain ⟨exit, hdeclared, rfl⟩ := List.mem_map.1 hexit
        have hpath : qualify path mount = m.path := by rw [Mounting.path, hparent, hname]
        rw [qualifySource, if_neg hnode, hparsed]
        dsimp only
        rw [hpath, ← hparent]
        exact .exit hm hdeclared hid

/-- No node of a scope stands where the scope mounts something. -/
theorem node_ne_mount (h : Composed workflow compiled) {path node : String}
    {current : AuthoredWorkflow} (hscope : (path, current) ∈ workflow.mounted "")
    (hnode : node ∈ current.nodes.map Prod.fst) {m : Mounting}
    (hm : m ∈ workflow.mountings "") : qualify path node ≠ m.path := by
  intro heq
  have hnames := (h.shape _ hscope).names
  obtain ⟨parent, hparent, hmount⟩ := (h.mounting hm).parent
  obtain ⟨hpath, hname⟩ := (qualify_inj (isNodeId_of_authored (hnames.nodes node hnode))
    (isNodeId_of_authored (h.mounting hm).name)).1 heq
  obtain rfl := (Prod.mk.inj (scope_unique h.shape hscope hparent hpath)).2
  exact hnames.apart node hnode (hname ▸ mem_names_of_mounts hmount)

/-- An id one segment below a path that is inside is inside, and not the entry. -/
theorem inside_below {m : Mounting} {path target : String} (htarget : isNodeId target = true)
    (hinside : path ∈ m.inside) : qualify path target ∈ m.inside ∧ qualify path target ≠ m.path := by
  have hsegments := pathSegments_qualify path htarget
  constructor
  · show pathSegments m.path <+: pathSegments (qualify path target)
    rw [hsegments]
    exact hinside.trans (List.prefix_append _ _)
  · intro heq
    have hlength := hinside.length_le
    rw [← heq, hsegments, List.length_append, List.length_singleton] at hlength
    omega

/-- The region of a mounting. -/
def region (h : Composed workflow compiled) {m : Mounting} (hm : m ∈ workflow.mountings "") :
    Region (Worklist.Next (graphSuccessors compiled.edges)) where
  inside := m.inside
  entry := m.path
  exits := fun id => ∃ exit ∈ m.child.exits, id = exitNodeId m.path exit.1
  enters := by
    intro a b hnext hb
    -- The target stands one segment below a path that the source stands at or under.
    have hbelow : ∀ {path target : String}, isNodeId target = true →
        qualify path target ∈ m.inside → path ∈ m.inside ∨ qualify path target = m.path := by
      intro path target htarget hinside
      have hinside : pathSegments m.path <+: pathSegments (qualify path target) := hinside
      rw [pathSegments_qualify path htarget] at hinside
      rcases List.prefix_concat_iff.1 hinside with heq | hpath
      · rw [← pathSegments_qualify path htarget] at heq
        exact .inr (pathSegments_injective heq).symm
      · exact .inl hpath
    cases h.graphStep hnext with
    | own hscope hnode htarget =>
        have hnodeId := isNodeId_of_authored ((h.shape _ hscope).names.nodes _ hnode)
        exact (hbelow htarget hb).imp_left fun hpath => (inside_below hnodeId hpath).1
    | entry hm' htarget => exact hbelow htarget hb
    | @exit m' exit target hm' hexit htarget =>
        refine (hbelow htarget hb).imp_left fun hpath => ?_
        have hname := isNodeId_of_authored (h.mounting hm').name
        have hexitName := isNodeId_exit (isNodeId_of_authored (h.exitName hm' hexit))
        exact (inside_below hexitName (inside_below hname hpath).1).1
  leaves := by
    intro a b hnext ha hexits
    have habove : ∀ {path name : String}, isNodeId name = true → qualify path name ∈ m.inside →
        qualify path name ≠ m.path → path ∈ m.inside := by
      intro path name hname hinside hne
      have hinside : pathSegments m.path <+: pathSegments (qualify path name) := hinside
      rw [pathSegments_qualify path hname] at hinside
      rcases List.prefix_concat_iff.1 hinside with heq | hpath
      · rw [← pathSegments_qualify path hname] at heq
        exact absurd (pathSegments_injective heq).symm hne
      · exact hpath
    cases h.graphStep hnext with
    | own hscope hnode htarget =>
        have hnodeId := isNodeId_of_authored ((h.shape _ hscope).names.nodes _ hnode)
        exact inside_below htarget (habove hnodeId ha (h.node_ne_mount hscope hnode hm))
    | entry hm' htarget => exact inside_below htarget ha
    | @exit m' exit target hm' hexit htarget =>
        have hexitName := h.exitName hm' hexit
        have hne : exitNodeId m'.path exit.1 ≠ m.path :=
          (qualify_ne_exitNodeId (h.mounting hm).name hexitName).symm
        have hmount : m'.path ∈ m.inside :=
          habove (isNodeId_exit (isNodeId_of_authored hexitName)) ha hne
        refine inside_below htarget (habove (isNodeId_of_authored (h.mounting hm').name) hmount ?_)
        intro hsame
        obtain rfl : m' = m := List.inj_on_of_nodup_map h.nodup_mountPaths hm' hm hsame
        exact hexits ⟨exit, hexit, rfl⟩

end Composed

end PiWorkflows
