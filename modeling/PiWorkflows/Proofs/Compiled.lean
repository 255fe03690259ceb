import PiWorkflows.Workflows.Composition

/-!
# Entries and exits of a compiled workflow

An entry node is named by its mount path, so its last segment is the name an
author gave to the include. An exit node's last segment starts with the prefix
compilation keeps for itself. No name is both, so no compiled node is an entry
and an exit at once (`compiled_exit_notEntry`), which is what the stored
snapshot relies on when it marks a node as one or the other.

The invariant is on the two records while `mountWorkflow` fills them.
-/

namespace PiWorkflows

open Fallible

/-! ## Last segments -/

theorem isNodeIdChar_ne_slash {c : Char}
    (h : (c.isAlphanum || c == '_' || c == '-') = true) : c ≠ '/' := by
  rintro rfl
  revert h
  decide

theorem isNodeId_noSlash {name : String} (h : isNodeId name = true) : '/' ∉ name.toList := by
  unfold isNodeId at h
  split at h
  · cases h
  · next c cs hl =>
      simp only [Bool.and_eq_true, List.all_eq_true] at h
      rw [hl]
      intro hmem
      rcases List.mem_cons.1 hmem with hc | hcs
      · subst hc; exact absurd h.1 (by decide)
      · exact isNodeIdChar_ne_slash (h.2 _ hcs) rfl

theorem isAuthoredName_iff {name : String} :
    isAuthoredName name = true ↔ isNodeId name = true ∧ isReservedName name = false := by
  simp [isAuthoredName]

/-- The last segment of a qualified id is its local id. -/
theorem lastSegment_qualify {scopePath localId : String} (h : '/' ∉ localId.toList) :
    (splitText '/' (qualify scopePath localId)).getLast? = some localId := by
  unfold qualify
  split
  · rw [splitText_of_notMem h]; rfl
  · show (splitText '/' (scopePath ++ String.singleton '/' ++ localId)).getLast? = some localId
    rw [splitText_append, splitText_of_notMem h, List.getLast?_append]
    rfl

/-- Whether a qualified id ends in a reserved name. -/
def endsReserved (id : String) : Bool :=
  (splitText '/' id).getLast?.any isReservedName

theorem endsReserved_entry {scopePath name : String} (h : isAuthoredName name = true) :
    endsReserved (qualify scopePath name) = false := by
  obtain ⟨hid, hres⟩ := isAuthoredName_iff.1 h
  rw [endsReserved, lastSegment_qualify (isNodeId_noSlash hid)]
  exact hres

theorem endsReserved_exit {mountPath exitName : String} (h : isAuthoredName exitName = true) :
    endsReserved (exitNodeId mountPath exitName) = true := by
  obtain ⟨hid, _⟩ := isAuthoredName_iff.1 h
  have hslash : '/' ∉ ("__piw_exit_" ++ exitName).toList := by
    rw [String.toList_append, List.mem_append]
    rintro (hp | hn)
    · exact absurd hp (by decide)
    · exact isNodeId_noSlash hid hn
  rw [endsReserved, exitNodeId, lastSegment_qualify hslash]
  show isReservedName ("__piw_exit_" ++ exitName) = true
  rw [isReservedName, String.toList_append, List.isPrefixOf_iff_prefix]
  exact (show "__piw_".toList <+: "__piw_exit_".toList by decide).trans
    (List.prefix_append _ _)

/-! ## The records while they are filled -/

/-- Entries end in authored names and exits in reserved ones. -/
structure MarksDisjoint (acc : Compilation) : Prop where
  entries : ∀ id entry, acc.entries.lookup id = some entry → endsReserved id = false
  exits : ∀ id exit, acc.exits.lookup id = some exit → endsReserved id = true

theorem MarksDisjoint.mountScope {acc : Compilation} (h : MarksDisjoint acc)
    (current : AuthoredWorkflow) (scopePath : String) :
    MarksDisjoint (mountScope current scopePath acc) :=
  ⟨h.entries, h.exits⟩

theorem MarksDisjoint.mountEntry {acc : Compilation} (h : MarksDisjoint acc)
    (child : AuthoredWorkflow) (scopePath : String) {name : String} (mapsSettings : Bool)
    (hname : isAuthoredName name = true) :
    MarksDisjoint (mountEntry child scopePath name mapsSettings acc) where
  entries id entry hlookup := by
    rcases lookup_assignMember_some hlookup with ⟨rfl, -⟩ | hbefore
    · exact endsReserved_entry hname
    · exact h.entries id entry hbefore
  exits := h.exits

theorem MarksDisjoint.mountExit {acc : Compilation} (h : MarksDisjoint acc)
    (child : AuthoredWorkflow) (scopePath name : String) {exit : String × String}
    (hname : isAuthoredName exit.1 = true) :
    MarksDisjoint (mountExit child scopePath name acc exit) where
  entries := h.entries
  exits id found hlookup := by
    rcases lookup_assignMember_some hlookup with ⟨rfl, -⟩ | hbefore
    · exact endsReserved_exit hname
    · exact h.exits id found hbefore

theorem MarksDisjoint.mountExits {child : AuthoredWorkflow} {scopePath name : String}
    {exits : List (String × String)} (hnames : ∀ exit ∈ exits, isAuthoredName exit.1 = true)
    {acc : Compilation} (h : MarksDisjoint acc) :
    MarksDisjoint (exits.foldl (PiWorkflows.mountExit child scopePath name) acc) := by
  induction exits generalizing acc with
  | nil => exact h
  | cons exit rest ih =>
      rw [List.foldl_cons]
      refine ih (fun e he => hnames e (List.mem_cons_of_mem _ he)) ?_
      exact h.mountExit child scopePath name (hnames exit List.mem_cons_self)

theorem mountEdges_marks {current : AuthoredWorkflow} {scopePath : String}
    {acc acc' : Compilation} (h : mountEdges current scopePath acc = .ok acc') :
    acc'.entries = acc.entries ∧ acc'.exits = acc.exits := by
  simp only [mountEdges, bind_ok, pure_ok] at h
  obtain ⟨_, _, rfl⟩ := h
  exact ⟨rfl, rfl⟩

theorem exits_wellNamed {workflow : AuthoredWorkflow} (h : workflow.wellNamed = true) :
    ∀ exit ∈ workflow.exits, isAuthoredName exit.1 = true := by
  obtain ⟨_, _, _, _, _, _, exits, _⟩ := workflow
  simp only [AuthoredWorkflow.wellNamed, Bool.and_eq_true, List.all_eq_true] at h
  exact fun exit he => (h.2 exit he).1

mutual

theorem mountWorkflow_marks {current : AuthoredWorkflow} {scopePath : String}
    {acc acc' : Compilation} (hnamed : current.wellNamed = true) (hacc : MarksDisjoint acc)
    (h : mountWorkflow current scopePath acc = .ok acc') : MarksDisjoint acc' := by
  match current with
  | .mk _ _ _ _ _ _ _ includes =>
      simp only [mountWorkflow, bind_ok] at h
      obtain ⟨_, _, mounted, hmounted, hedges⟩ := h
      simp only [AuthoredWorkflow.wellNamed, Bool.and_eq_true] at hnamed
      have hinner := mountIncludes_marks hnamed.1.2 (hacc.mountScope _ scopePath) hmounted
      obtain ⟨hentries, hexits⟩ := mountEdges_marks hedges
      exact ⟨hentries ▸ hinner.entries, hexits ▸ hinner.exits⟩

theorem mountIncludes_marks {includes : AuthoredIncludes} {scopePath : String}
    {nodes : List (String × AuthoredNode)} {acc acc' : Compilation}
    (hnamed : includes.wellNamed nodes = true) (hacc : MarksDisjoint acc)
    (h : mountIncludes includes scopePath acc = .ok acc') : MarksDisjoint acc' := by
  match includes with
  | .none => rw [mountIncludes] at h; cases h; exact hacc
  | .unresolved _ _ _ => rw [mountIncludes] at h; cases h
  | .mount name mapsSettings child rest =>
      simp only [mountIncludes, bind_ok] at h
      obtain ⟨_, _, mounted, hmounted, hrest⟩ := h
      simp only [AuthoredIncludes.wellNamed, Bool.and_eq_true] at hnamed
      obtain ⟨⟨⟨hname, _⟩, hchild⟩, hremaining⟩ := hnamed
      have hentered := hacc.mountEntry child scopePath mapsSettings hname
      have hexited : MarksDisjoint
          (child.exits.foldl (mountExit child scopePath name) _) :=
        hentered.mountExits (exits_wellNamed hchild)
      refine mountIncludes_marks hremaining (mountWorkflow_marks hchild ?_ hmounted) hrest
      exact ⟨hexited.entries, hexited.exits⟩

end

/-! ## The snapshot -/

/-- In a compiled workflow an exit node is never an entry node. -/
theorem compiled_exit_notEntry {workflow : AuthoredWorkflow} {compiled : CompiledWorkflow}
    (hnamed : workflow.wellNamed = true)
    (h : compileWorkflowDefinition workflow = .ok compiled) {id : String} {exit : ExitMetadata}
    (hexit : compiled.exits.lookup id = some exit) : compiled.entries.lookup id = none := by
  simp only [compileWorkflowDefinition, bind_ok, pure_ok] at h
  obtain ⟨_, _, mounted, hmounted, rfl⟩ := h
  have hmarks : MarksDisjoint mounted := mountWorkflow_marks hnamed ⟨by simp, by simp⟩ hmounted
  have hreserved := hmarks.exits id exit hexit
  cases hentry : mounted.entries.lookup id with
  | none => rfl
  | some entry =>
      rw [hmarks.entries id entry hentry] at hreserved
      cases hreserved

end PiWorkflows
