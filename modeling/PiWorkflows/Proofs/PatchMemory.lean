import PiWorkflows.Proofs.PatchLocations
import PiWorkflows.Proofs.PatchOwned

/-!
# The patch in memory computes the patch on values

A document that owns its cells is walked and written as the value it is: the walk
to a parent finds the cell of the parent, and whatever is written there shows in
the document at that location and nowhere else (`resolveParent_focus`). So an
application of a patch ends as the application to values does, with the same value
or the same error, and leaves all cells that it did not make itself as they were
(`applyJsonPatch_follows`).
-/

namespace PiWorkflows.InPlace

open Fallible

/-! ## Computations over the memory -/

theorem bind_of_ok {α β : Type} {x : Act α} {f : α → Act β} {memory memory' : Memory} {a : α}
    (h : x memory = .ok a memory') : (x >>= f) memory = f a memory' := by
  show EStateM.bind x f memory = _
  rw [EStateM.bind, h]

theorem bind_of_error {α β : Type} {x : Act α} {f : α → Act β} {memory memory' : Memory}
    {e : String} (h : x memory = .error e memory') : (x >>= f) memory = .error e memory' := by
  show EStateM.bind x f memory = _
  rw [EStateM.bind, h]

theorem ok_bind {α β : Type} (a : α) (f : α → Except String β) : (Except.ok a >>= f) = f a := rfl

theorem throwing_ok_bind {α β : Type} (a : α) (f : α → Act β) : (throwing (.ok a) >>= f) = f a := rfl

theorem load_of_held {memory : Memory} {a : Nat} {c : Cell} (h : memory[a]? = some c) :
    load a memory = .ok c memory := by
  rw [load, h]
  rfl

/-! ## Copies -/

mutual

theorem copyOf_spec (value : Json) (memory : Memory) :
    ∃ (t : Owned) (more : Memory), copyOf value memory = .ok t.slot (memory ++ more) ∧
      t.value = value ∧ Owns memory.length (memory ++ more) t.cells := by
  match value with
  | .null => exact ⟨.scalar .null, [], by rw [List.append_nil]; rfl, rfl, .zero⟩
  | .bool b => exact ⟨.scalar (.bool b), [], by rw [List.append_nil]; rfl, rfl, .zero⟩
  | .num n => exact ⟨.scalar (.num n), [], by rw [List.append_nil]; rfl, rfl, .zero⟩
  | .str s => exact ⟨.scalar (.str s), [], by rw [List.append_nil]; rfl, rfl, .zero⟩
  | .arr items =>
      obtain ⟨ts, more, hcopy, hvalue, howns⟩ := copyItems_spec items memory
      refine ⟨.arr (memory ++ more).length ts, more ++ [.arr (ts.map Owned.slot)], ?_, ?_, ?_⟩
      · rw [copyOf, bind_of_ok hcopy, allocate, ← List.append_assoc]
        rfl
      · rw [Owned.value, Owned.values_eq, hvalue]
      · rw [← List.append_assoc]
        exact howns.push (by simp) _
  | .obj members =>
      obtain ⟨ts, more, hcopy, hvalue, howns⟩ := copyMembers_spec members memory
      refine ⟨.obj (memory ++ more).length ts, more ++ [.obj (Assoc.mapValues Owned.slot ts)],
        ?_, ?_, ?_⟩
      · rw [copyOf, bind_of_ok hcopy, allocate, ← List.append_assoc]
        rfl
      · rw [Owned.value, Owned.memberValues_eq, hvalue]
      · rw [← List.append_assoc]
        exact howns.push (by simp) _

theorem copyItems_spec (items : List Json) (memory : Memory) :
    ∃ (ts : List Owned) (more : Memory),
      copyItems items memory = .ok (ts.map Owned.slot) (memory ++ more) ∧
        ts.map Owned.value = items ∧ Owns memory.length (memory ++ more) (Owned.itemCells ts) := by
  match items with
  | [] => exact ⟨[], [], by rw [List.append_nil]; rfl, rfl, .zero⟩
  | item :: rest =>
      obtain ⟨t, more, hcopy, hvalue, howns⟩ := copyOf_spec item memory
      obtain ⟨ts, more', hcopy', hvalue', howns'⟩ := copyItems_spec rest (memory ++ more)
      refine ⟨t :: ts, more ++ more', ?_, ?_, ?_⟩
      · rw [copyItems, bind_of_ok hcopy, bind_of_ok hcopy', ← List.append_assoc]
        rfl
      · rw [List.map_cons, hvalue, hvalue']
      · rw [← List.append_assoc]
        exact howns.fresh (by simp) howns'

theorem copyMembers_spec (members : List (String × Json)) (memory : Memory) :
    ∃ (ts : List (String × Owned)) (more : Memory),
      copyMembers members memory = .ok (Assoc.mapValues Owned.slot ts) (memory ++ more) ∧
        Assoc.mapValues Owned.value ts = members ∧
          Owns memory.length (memory ++ more) (Owned.memberCells ts) := by
  match members with
  | [] => exact ⟨[], [], by rw [List.append_nil]; rfl, rfl, .zero⟩
  | (name, member) :: rest =>
      obtain ⟨t, more, hcopy, hvalue, howns⟩ := copyOf_spec member memory
      obtain ⟨ts, more', hcopy', hvalue', howns'⟩ := copyMembers_spec rest (memory ++ more)
      refine ⟨(name, t) :: ts, more ++ more', ?_, ?_, ?_⟩
      · rw [copyMembers, bind_of_ok hcopy, bind_of_ok hcopy', ← List.append_assoc]
        rfl
      · rw [Assoc.mapValues, List.map_cons, hvalue, ← hvalue']
        rfl
      · rw [← List.append_assoc]
        exact howns.fresh (by simp) howns'

end

section Clones

variable {depth : Nat} {memory : Memory}
  (ih : ∀ {slot : Slot} {value : Json}, readJson depth memory slot = some value →
    ∀ more, cloneJson depth slot (memory ++ more) = copyOf value (memory ++ more))

include ih

theorem cloneItems_eq {items : List Slot} {values : List Json}
    (h : items.mapM (readJson depth memory) = some values) (more : Memory) :
    items.mapM (cloneJson depth) (memory ++ more) = copyItems values (memory ++ more) := by
  induction items generalizing values more with
  | nil =>
      cases h
      rfl
  | cons item rest ihrest =>
      rw [List.mapM_cons] at h ⊢
      obtain ⟨value, hvalue, h⟩ := Option.bind_eq_some_iff.1 h
      obtain ⟨others, hothers, heq⟩ := Option.bind_eq_some_iff.1 h
      cases heq
      obtain ⟨t, more', hcopy, -⟩ := copyOf_spec value (memory ++ more)
      rw [copyItems, bind_of_ok ((ih hvalue more).trans hcopy), bind_of_ok hcopy]
      have hrest := ihrest hothers (more ++ more')
      rw [← List.append_assoc] at hrest
      obtain ⟨ts, more'', hcopy', -⟩ := copyItems_spec others (memory ++ more ++ more')
      rw [bind_of_ok (hrest.trans hcopy'), bind_of_ok hcopy']

theorem cloneMembers_eq {members : List (String × Slot)} {values : List (String × Json)}
    (h : (members.mapM fun member =>
      (readJson depth memory member.2).map fun value => (member.1, value)) = some values)
    (more : Memory) :
    (members.mapM fun member => do
      let value ← cloneJson depth member.2
      pure (member.1, value) : Act _) (memory ++ more) = copyMembers values (memory ++ more) := by
  induction members generalizing values more with
  | nil =>
      cases h
      rfl
  | cons member rest ihrest =>
      rw [List.mapM_cons] at h ⊢
      obtain ⟨_, hread, h⟩ := Option.bind_eq_some_iff.1 h
      obtain ⟨value, hvalue, rfl⟩ := Option.map_eq_some_iff.1 hread
      obtain ⟨others, hothers, heq⟩ := Option.bind_eq_some_iff.1 h
      cases heq
      obtain ⟨t, more', hcopy, -⟩ := copyOf_spec value (memory ++ more)
      have hfirst : (do
          let value ← cloneJson depth member.2
          pure (member.1, value) : Act _) (memory ++ more) =
            .ok (member.1, t.slot) (memory ++ more ++ more') := by
        rw [bind_of_ok ((ih hvalue more).trans hcopy)]
        rfl
      rw [copyMembers, bind_of_ok hfirst, bind_of_ok hcopy]
      have hrest := ihrest hothers (more ++ more')
      rw [← List.append_assoc] at hrest
      obtain ⟨ts, more'', hcopy', -⟩ := copyMembers_spec others (memory ++ more ++ more')
      rw [bind_of_ok (hrest.trans hcopy'), bind_of_ok hcopy']

end Clones

/-- A clone of a value that is read from the memory is a copy of the value. -/
theorem cloneJson_eq_copyOf {depth : Nat} {memory : Memory} {slot : Slot} {value : Json}
    (h : readJson depth memory slot = some value) (more : Memory) :
    cloneJson depth slot (memory ++ more) = copyOf value (memory ++ more) := by
  induction depth generalizing slot value more with
  | zero =>
      cases slot with
      | scalar s =>
          cases h
          cases s <;> rfl
      | ref address => cases h
  | succ depth ih =>
      cases slot with
      | scalar s =>
          cases h
          cases s <;> rfl
      | ref address =>
          rw [readJson] at h
          rw [cloneJson]
          split at h
          · next items hcell =>
              obtain ⟨values, hvalues, rfl⟩ := Option.map_eq_some_iff.1 h
              have hlt := (List.getElem?_eq_some_iff.1 hcell).1
              replace hcell : (memory ++ more)[address]? = some (.arr items) :=
                (List.getElem?_append_left hlt).trans hcell
              rw [bind_of_ok (load_of_held hcell)]
              obtain ⟨ts, more', hcopy, -⟩ := copyItems_spec values (memory ++ more)
              have hclone := (cloneItems_eq ih hvalues more).trans hcopy
              rw [copyOf, bind_of_ok hcopy]
              exact bind_of_ok hclone
          · next members hcell =>
              obtain ⟨values, hvalues, rfl⟩ := Option.map_eq_some_iff.1 h
              have hlt := (List.getElem?_eq_some_iff.1 hcell).1
              replace hcell : (memory ++ more)[address]? = some (.obj members) :=
                (List.getElem?_append_left hlt).trans hcell
              rw [bind_of_ok (load_of_held hcell)]
              obtain ⟨ts, more', hcopy, -⟩ := copyMembers_spec values (memory ++ more)
              have hclone := (cloneMembers_eq ih hvalues more).trans hcopy
              rw [copyOf, bind_of_ok hcopy]
              exact bind_of_ok hclone
          · cases h

/-! ## Reading -/

mutual

/-- How deeply a value is nested. -/
def height : Json → Nat
  | .arr items => itemsHeight items + 1
  | .obj members => membersHeight members + 1
  | .null | .bool _ | .num _ | .str _ => 0

def itemsHeight : List Json → Nat
  | [] => 0
  | item :: rest => max (height item) (itemsHeight rest)

def membersHeight : List (String × Json) → Nat
  | [] => 0
  | (_, member) :: rest => max (height member) (membersHeight rest)

end

theorem height_le_items {items : List Json} {item : Json} (h : item ∈ items) :
    height item ≤ itemsHeight items := by
  induction items with
  | nil => cases h
  | cons first rest ih =>
      rcases List.mem_cons.1 h with rfl | h
      · exact Nat.le_max_left _ _
      · exact (ih h).trans (Nat.le_max_right _ _)

theorem height_le_members {members : List (String × Json)} {name : String} {member : Json}
    (h : (name, member) ∈ members) : height member ≤ membersHeight members := by
  induction members with
  | nil => cases h
  | cons first rest ih =>
      rcases List.mem_cons.1 h with rfl | h
      · exact Nat.le_max_left _ _
      · exact (ih h).trans (Nat.le_max_right _ _)

theorem cells_le_itemCells {items : List Owned} {item : Owned} (h : item ∈ items) :
    item.cells ≤ Owned.itemCells items := by
  obtain ⟨i, hi⟩ := List.mem_iff_getElem?.1 h
  rw [Owned.itemCells_at hi]
  exact Multiset.le_add_right _ _

theorem cells_le_memberCells {members : List (String × Owned)} {name : String} {member : Owned}
    (h : (name, member) ∈ members) : member.cells ≤ Owned.memberCells members := by
  induction members with
  | nil => cases h
  | cons first rest ih =>
      rcases List.mem_cons.1 h with rfl | h
      · exact Multiset.le_add_right _ _
      · exact (ih h).trans (Multiset.le_add_left _ _)

theorem readItems_owned {depth : Nat} {memory : Memory} {items : List Owned}
    (h : ∀ item ∈ items, readJson depth memory item.slot = some item.value) :
    (items.map Owned.slot).mapM (readJson depth memory) = some (items.map Owned.value) := by
  induction items with
  | nil => rfl
  | cons item rest ih =>
      rw [List.map_cons, List.mapM_cons, h item List.mem_cons_self,
        ih fun other hother => h other (List.mem_cons_of_mem _ hother)]
      rfl

theorem readMembers_owned {depth : Nat} {memory : Memory} {members : List (String × Owned)}
    (h : ∀ member ∈ members, readJson depth memory member.2.slot = some member.2.value) :
    ((Assoc.mapValues Owned.slot members).mapM fun member =>
      (readJson depth memory member.2).map fun value => (member.1, value)) =
        some (Assoc.mapValues Owned.value members) := by
  induction members with
  | nil => rfl
  | cons member rest ih =>
      rw [Assoc.mapValues, List.map_cons, List.mapM_cons, h member List.mem_cons_self]
      rw [Assoc.mapValues] at ih
      rw [ih fun other hother => h other (List.mem_cons_of_mem _ hother)]
      rfl

/-- A value that owns its cells is read as the value it is, on a stack that is
high enough. -/
theorem readJson_owned {n depth : Nat} {memory : Memory} {t : Owned}
    (howns : Owns n memory t.cells) (hdepth : height t.value ≤ depth) :
    readJson depth memory t.slot = some t.value := by
  induction depth generalizing t with
  | zero =>
      cases t with
      | scalar s => rfl
      | arr | obj => rw [Owned.value, height] at hdepth; omega
  | succ depth ih =>
      cases t with
      | scalar s => rfl
      | arr address items =>
          have hcell := howns.held _ _ (Multiset.mem_cons_self _ _)
          rw [Owned.value, height, Owned.values_eq] at hdepth
          have hitems : ∀ item ∈ items, readJson depth memory item.slot = some item.value := by
            intro item hitem
            refine ih (howns.mono ?_) ?_
            · exact (cells_le_itemCells hitem).trans (Multiset.le_cons_self _ _)
            · have hle := height_le_items (List.mem_map_of_mem (f := Owned.value) hitem)
              omega
          rw [Owned.slot, readJson, hcell]
          simp only [readItems_owned hitems, Option.map_some, Owned.value, Owned.values_eq]
      | obj address members =>
          have hcell := howns.held _ _ (Multiset.mem_cons_self _ _)
          rw [Owned.value, height, Owned.memberValues_eq] at hdepth
          have hmembers : ∀ member ∈ members,
              readJson depth memory member.2.slot = some member.2.value := by
            intro member hmember
            refine ih (howns.mono ?_) ?_
            · exact (cells_le_memberCells hmember).trans (Multiset.le_cons_self _ _)
            · have hmem : (member.1, member.2.value) ∈ Assoc.mapValues Owned.value members :=
                List.mem_map.2 ⟨member, hmember, rfl⟩
              have hle := height_le_members hmem
              omega
          rw [Owned.slot, readJson, hcell]
          simp only [readMembers_owned hmembers, Option.map_some, Owned.value,
            Owned.memberValues_eq]

/-! ## Walks -/

section Walks

variable {n : Nat} {memory : Memory} {missing : String}

theorem lookup_mapValues {β : Type} (f : Owned → β) (name : String)
    (members : List (String × Owned)) :
    (Assoc.mapValues f members).lookup name = (members.lookup name).map f :=
  Assoc.lookup_map (fun _ => f) name members

/-- What a subtree stands in: it can be exchanged for another at its address, and
the cells around it stay. -/
structure Focus (t sub : Owned) (around : Multiset (Nat × Cell)) (put : Json → Json) : Prop where
  cells : t.cells = sub.cells + around
  plug : ∀ sub' : Owned, sub'.slot = sub.slot → ∃ t' : Owned, t'.slot = t.slot ∧
    t'.cells = sub'.cells + around ∧ t'.value = put sub'.value

theorem Focus.refl (t : Owned) : Focus t t 0 id where
  cells := (add_zero _).symm
  plug sub' hslot := ⟨sub', hslot, (add_zero _).symm, rfl⟩

theorem Focus.trans {t sub sub' : Owned} {around around' : Multiset (Nat × Cell)}
    {put put' : Json → Json} (h : Focus t sub around put) (h' : Focus sub sub' around' put') :
    Focus t sub' (around' + around) (put ∘ put') where
  cells := by rw [h.cells, h'.cells, add_assoc]
  plug sub'' hslot := by
    obtain ⟨s, hs, hcells, hvalue⟩ := h'.plug sub'' hslot
    obtain ⟨t', ht', hcells', hvalue'⟩ := h.plug s hs
    exact ⟨t', ht', by rw [hcells', hcells, add_assoc], by rw [hvalue', hvalue, Function.comp]⟩

theorem item_focus {address i : Nat} {items : List Owned} {item : Owned} {segment : String}
    (hitem : items[i]? = some item) (hsegment : segment = i.repr) :
    Focus (.arr address items) item
      ((address, .arr (items.map Owned.slot)) ::ₘ Owned.itemCells (items.eraseIdx i))
      fun w => putChild (Owned.arr address items).value segment w := by
  have hi := (List.getElem?_eq_some_iff.1 hitem).1
  refine ⟨?_, fun item' hslot => ⟨.arr address (items.set i item'), rfl, ?_, ?_⟩⟩
  · rw [Owned.cells, Owned.itemCells_at hitem, Multiset.add_cons]
  · have hslots : (items.set i item').map Owned.slot = items.map Owned.slot := by
      rw [List.map_set, hslot]
      refine set_of_getElem? ?_
      rw [List.getElem?_map, hitem, Option.map_some]
    rw [Owned.cells, hslots, Owned.itemCells_set hi, Multiset.add_cons]
  · simp only [Owned.value, Owned.values_eq, putChild, arrayIndexName_iff.2 hsegment, List.map_set]

theorem member_focus (address : Nat) {members : List (String × Owned)} {member : Owned}
    {segment : String} (hmember : members.lookup segment = some member) :
    ∃ around, Focus (.obj address members) member around
      fun w => putChild (Owned.obj address members).value segment w := by
  obtain ⟨others, hcells, hset⟩ := Owned.memberCells_at hmember
  refine ⟨(address, .obj (Assoc.mapValues Owned.slot members)) ::ₘ others, ?_,
    fun member' hslot => ⟨.obj address (Assoc.setKey segment member' members), rfl, ?_, ?_⟩⟩
  · rw [Owned.cells, hcells, Multiset.add_cons]
  · have hslots : Assoc.mapValues Owned.slot (Assoc.setKey segment member' members) =
        Assoc.mapValues Owned.slot members := by
      rw [Assoc.mapValues_setKey, hslot]
      refine Assoc.setKey_of_lookup ?_
      rw [lookup_mapValues, hmember, Option.map_some]
    rw [Owned.cells, hslots, hset, Multiset.add_cons]
  · simp only [Owned.value, Owned.memberValues_eq, putChild, Assoc.mapValues_setKey]

/-- One step of a walk finds the child that the value has there. -/
theorem child_focus {t : Owned} (missing segment : String) (howns : Owns n memory t.cells) :
    match PiWorkflows.child missing t.value segment with
    | .error e => child missing segment t.slot memory = .error e memory
    | .ok v => ∃ sub around, sub.value = v ∧
        child missing segment t.slot memory = .ok sub.slot memory ∧
          Focus t sub around fun w => putChild t.value segment w := by
  cases t with
  | scalar s => cases s <;> rfl
  | arr address items =>
      have hcell := howns.held _ _ (Multiset.mem_cons_self _ _)
      have hrun : child missing segment (Owned.arr address items).slot memory =
          throwing (do
            let index ← parseArrayIndex segment (items.map Owned.slot).length false
            orThrow missing (items.map Owned.slot)[index]?) memory :=
        bind_of_ok (load_of_held hcell)
      rw [List.length_map] at hrun
      have hvalue : PiWorkflows.child missing (Owned.arr address items).value segment = (do
          let index ← parseArrayIndex segment items.length false
          orThrow missing (items.map Owned.value)[index]?) := by
        rw [Owned.value, Owned.values_eq, PiWorkflows.child, List.length_map]
      rw [hvalue, hrun]
      cases hindex : parseArrayIndex segment items.length false with
      | error e => rfl
      | ok i =>
          simp only [bind, Except.bind, List.getElem?_map]
          cases hitem : items[i]? with
          | none => rfl
          | some item =>
              have hi := (List.getElem?_eq_some_iff.1 hitem).1
              exact ⟨item, _, rfl, rfl, item_focus hitem ((parseArrayIndex_inside hi).1 hindex)⟩
  | obj address members =>
      have hcell := howns.held _ _ (Multiset.mem_cons_self _ _)
      have hrun : child missing segment (Owned.obj address members).slot memory =
          throwing (orThrow missing ((members.lookup segment).map Owned.slot)) memory := by
        rw [child.eq_def, ← lookup_mapValues]
        exact bind_of_ok (load_of_held hcell)
      have hvalue : PiWorkflows.child missing (Owned.obj address members).value segment =
          orThrow missing ((members.lookup segment).map Owned.value) := by
        rw [Owned.value, Owned.memberValues_eq, PiWorkflows.child, lookup_mapValues]
      rw [hvalue, hrun]
      cases hmember : members.lookup segment with
      | none => rfl
      | some member =>
          obtain ⟨around, hfocus⟩ := member_focus address hmember
          exact ⟨member, around, rfl, rfl, hfocus⟩

/-- The walk to a parent finds the parent that the value has. What is written
there shows in the document at the location, as the write to the value does. -/
theorem resolveParent_focus {t : Owned} (missing : String) (path : List String)
    (howns : Owns n memory t.cells) :
    match PiWorkflows.resolveParent missing t.value path with
    | .error e => resolveParent missing t.slot path memory = .error e memory
    | .ok (parent, key) => ∃ sub around put, sub.value = parent ∧
        resolveParent missing t.slot path memory = .ok (sub.slot, key) memory ∧
          Focus t sub around put ∧
            ∀ {α : Type} (edit : Json → String → Except String (Json × α)),
              editParent missing edit t.value path =
                (edit parent key).map fun changed => (put changed.1, changed.2) := by
  induction path generalizing t with
  | nil => rfl
  | cons segment rest ih =>
      cases rest with
      | nil =>
          refine ⟨t, 0, id, rfl, rfl, .refl t, fun edit => ?_⟩
          rw [editParent]
          cases edit t.value segment <;> rfl
      | cons next more =>
          have hchild := child_focus missing segment howns
          rw [PiWorkflows.resolveParent]
          cases hvalue : PiWorkflows.child missing t.value segment with
          | error e =>
              rw [hvalue] at hchild
              exact bind_of_error hchild
          | ok v =>
              rw [hvalue] at hchild
              obtain ⟨sub, around, rfl, hrun, hfocus⟩ := hchild
              have hsub : Owns n memory sub.cells := howns.mono (by
                rw [hfocus.cells]
                exact Multiset.le_add_right _ _)
              have hrest := ih hsub
              have hbind : resolveParent missing t.slot (segment :: next :: more) memory =
                  resolveParent missing sub.slot (next :: more) memory := bind_of_ok hrun
              rw [hbind]
              simp only [bind, Except.bind]
              cases hparent : PiWorkflows.resolveParent missing sub.value (next :: more) with
              | error e =>
                  rw [hparent] at hrest
                  exact hrest
              | ok found =>
                  obtain ⟨parent, key⟩ := found
                  rw [hparent] at hrest
                  obtain ⟨sub', around', put, hval, hrun', hfocus', hedit⟩ := hrest
                  refine ⟨sub', _, _, hval, hrun', hfocus.trans hfocus', fun edit => ?_⟩
                  rw [editParent, hvalue]
                  simp only [bind, Except.bind]
                  rw [hedit edit]
                  cases edit parent key <;> rfl

end Walks

/-! ## Writes -/

section Writes

variable {n : Nat} {memory : Memory} {missing key : String} {around rest : Multiset (Nat × Cell)}

theorem store_arr {address : Nat} {items items' : List Owned}
    (howns : Owns n memory ((Owned.arr address items).cells + rest))
    (hle : Owned.itemCells items' + around ≤ Owned.itemCells items + rest) :
    Kept n memory (memory.set address (.arr (items'.map Owned.slot))) ∧
      Owns n (memory.set address (.arr (items'.map Owned.slot)))
        ((Owned.arr address items').cells + around) := by
  rw [Owned.cells, Multiset.cons_add] at howns
  refine ⟨kept_store (howns.own _ _ (Multiset.mem_cons_self _ _)), (howns.store _).mono ?_⟩
  rw [Owned.cells, Multiset.cons_add]
  exact Multiset.cons_le_cons _ hle

theorem store_obj {address : Nat} {members members' : List (String × Owned)}
    (howns : Owns n memory ((Owned.obj address members).cells + rest))
    (hle : Owned.memberCells members' + around ≤ Owned.memberCells members + rest) :
    Kept n memory (memory.set address (.obj (Assoc.mapValues Owned.slot members'))) ∧
      Owns n (memory.set address (.obj (Assoc.mapValues Owned.slot members')))
        ((Owned.obj address members').cells + around) := by
  rw [Owned.cells, Multiset.cons_add] at howns
  refine ⟨kept_store (howns.own _ _ (Multiset.mem_cons_self _ _)), (howns.store _).mono ?_⟩
  rw [Owned.cells, Multiset.cons_add]
  exact Multiset.cons_le_cons _ hle

theorem require_pos {p : Prop} [Decidable p] {message : String} (h : p) :
    require p message = .ok .unit :=
  if_pos h

theorem require_neg {p : Prop} [Decidable p] {message : String} (h : ¬ p) :
    require p message = .error message :=
  if_neg h

/-- An addition at the parent writes the parent, and only its cell. -/
theorem addChild_parent {sub v : Owned} (missing key : String) (replaceOnly : Bool)
    (howns : Owns n memory (sub.cells + (around + v.cells))) :
    match PiWorkflows.addChild missing v.value replaceOnly sub.value key with
    | .error e => addChild missing v.slot replaceOnly sub.slot key memory = .error e memory
    | .ok (w, _) => ∃ (sub' : Owned) (memory' : Memory),
        addChild missing v.slot replaceOnly sub.slot key memory = .ok () memory' ∧
          sub'.slot = sub.slot ∧ sub'.value = w ∧ Kept n memory memory' ∧
            Owns n memory' (sub'.cells + around) := by
  cases sub with
  | scalar s => cases s <;> rfl
  | arr address items =>
      have hcell := howns.held address (.arr (items.map Owned.slot)) (by
        rw [Owned.cells, Multiset.cons_add]
        exact Multiset.mem_cons_self _ _)
      rw [Owned.value, Owned.values_eq, Owned.slot, addChild, bind_of_ok (load_of_held hcell)]
      rw [PiWorkflows.addChild, List.length_map]
      cases replaceOnly with
      | true =>
          simp only [if_pos, List.length_map]
          cases hindex : parseArrayIndex key items.length false with
          | error e => rfl
          | ok i =>
              by_cases hi : i < items.length
              · simp only [ok_bind, throwing_ok_bind, require_pos hi]
                have hle : Owned.itemCells (items.set i v) + around ≤
                    Owned.itemCells items + (around + v.cells) := by
                  rw [Owned.itemCells_set hi, Owned.itemCells_at (List.getElem?_eq_getElem hi),
                    add_comm v.cells, add_assoc, add_assoc, add_comm v.cells]
                  exact Multiset.le_add_left _ _
                obtain ⟨hkept, howns'⟩ := store_arr howns hle
                refine ⟨.arr address (items.set i v), _, ?_, rfl, ?_, hkept, howns'⟩
                · rw [List.map_set]
                  rfl
                · rw [Owned.value, Owned.values_eq, List.map_set]
              · simp only [ok_bind, throwing_ok_bind, require_neg hi]
                rfl
      | false =>
          simp only [Bool.false_eq_true, if_false, List.length_map]
          cases hindex : parseArrayIndex key items.length true with
          | error e => rfl
          | ok i =>
              by_cases hi : i ≤ items.length
              · simp only [ok_bind, throwing_ok_bind, require_pos hi]
                have hle : Owned.itemCells (items.insertIdx i v) + around ≤
                    Owned.itemCells items + (around + v.cells) := by
                  rw [Owned.itemCells_insertIdx hi, add_comm v.cells, add_assoc, add_comm v.cells]
                obtain ⟨hkept, howns'⟩ := store_arr howns hle
                refine ⟨.arr address (items.insertIdx i v), _, ?_, rfl, ?_, hkept, howns'⟩
                · rw [List.map_insertIdx]
                  rfl
                · rw [Owned.value, Owned.values_eq, List.map_insertIdx]
              · simp only [ok_bind, throwing_ok_bind, require_neg hi]
                rfl
  | obj address members =>
      have hcell := howns.held address (.obj (Assoc.mapValues Owned.slot members)) (by
        rw [Owned.cells, Multiset.cons_add]
        exact Multiset.mem_cons_self _ _)
      have hthere : ∀ {β : Type} (f : Owned → β),
          ((Assoc.mapValues f members).lookup key).isSome = (members.lookup key).isSome := by
        intro β f
        rw [lookup_mapValues, Option.isSome_map]
      rw [Owned.value, Owned.memberValues_eq, Owned.slot, addChild, bind_of_ok (load_of_held hcell)]
      rw [PiWorkflows.addChild]
      simp only [hthere]
      by_cases hpresent : replaceOnly = true → (members.lookup key).isSome = true
      · simp only [ok_bind, throwing_ok_bind, require_pos hpresent]
        have hle : Owned.memberCells (Assoc.setKey key v members) + around ≤
            Owned.memberCells members + (around + v.cells) := by
          refine (add_le_add_left (Owned.memberCells_setKey members key v) around).trans ?_
          rw [add_comm v.cells, add_assoc, add_comm v.cells]
        obtain ⟨hkept, howns'⟩ := store_obj howns hle
        refine ⟨.obj address (Assoc.setKey key v members), _, ?_, rfl, ?_, hkept, howns'⟩
        · rw [Assoc.mapValues_setKey]
          rfl
        · rw [Owned.value, Owned.memberValues_eq, Assoc.mapValues_setKey]
      · simp only [require_neg hpresent]
        rfl

/-- A removal at the parent writes the parent, and hands out what stood there. -/
theorem removeChild_parent {sub : Owned} (missing key : String)
    (howns : Owns n memory (sub.cells + around)) :
    match PiWorkflows.removeChild missing sub.value key with
    | .error e => removeChild missing sub.slot key memory = .error e memory
    | .ok (w, v) => ∃ (sub' taken : Owned) (memory' : Memory),
        removeChild missing sub.slot key memory = .ok taken.slot memory' ∧
          sub'.slot = sub.slot ∧ sub'.value = w ∧ taken.value = v ∧ Kept n memory memory' ∧
            Owns n memory' (sub'.cells + (taken.cells + around)) := by
  cases sub with
  | scalar s => cases s <;> rfl
  | arr address items =>
      have hcell := howns.held address (.arr (items.map Owned.slot)) (by
        rw [Owned.cells, Multiset.cons_add]
        exact Multiset.mem_cons_self _ _)
      rw [Owned.value, Owned.values_eq, Owned.slot, removeChild, bind_of_ok (load_of_held hcell)]
      rw [PiWorkflows.removeChild]
      simp only [List.length_map, List.getElem?_map]
      cases hindex : parseArrayIndex key items.length false with
      | error e => rfl
      | ok i =>
          cases hitem : items[i]? with
          | none =>
              simp only [ok_bind, throwing_ok_bind, hitem]
              rfl
          | some taken =>
              simp only [ok_bind, throwing_ok_bind, hitem, Option.map_some, orThrow]
              have hle : Owned.itemCells (items.eraseIdx i) + (taken.cells + around) ≤
                  Owned.itemCells items + around := by
                rw [Owned.itemCells_at hitem, ← add_assoc, add_comm _ taken.cells]
              obtain ⟨hkept, howns'⟩ := store_arr howns hle
              refine ⟨.arr address (items.eraseIdx i), taken, _, ?_, rfl, ?_, rfl, hkept, howns'⟩
              · rw [← List.eraseIdx_map]
                rfl
              · rw [Owned.value, Owned.values_eq, ← List.eraseIdx_map]
  | obj address members =>
      have hcell := howns.held address (.obj (Assoc.mapValues Owned.slot members)) (by
        rw [Owned.cells, Multiset.cons_add]
        exact Multiset.mem_cons_self _ _)
      rw [Owned.value, Owned.memberValues_eq, Owned.slot, removeChild,
        bind_of_ok (load_of_held hcell)]
      rw [PiWorkflows.removeChild]
      simp only [lookup_mapValues]
      cases hmember : members.lookup key with
      | none => rfl
      | some taken =>
          simp only [ok_bind, throwing_ok_bind, Option.map_some, orThrow]
          have hle : Owned.memberCells (Assoc.eraseKey key members) + (taken.cells + around) ≤
              Owned.memberCells members + around := by
            rw [← add_assoc, add_comm _ taken.cells]
            exact add_le_add_left (Owned.memberCells_eraseKey hmember) _
          obtain ⟨hkept, howns'⟩ := store_obj howns hle
          refine ⟨.obj address (Assoc.eraseKey key members), taken, _, ?_, rfl, ?_, rfl, hkept,
            howns'⟩
          · rw [Assoc.mapValues_eraseKey]
            rfl
          · rw [Owned.value, Owned.memberValues_eq, Assoc.mapValues_eraseKey]

end Writes

/-! ## Operations -/

/-- A run on a memory ends as a computation on values does: with the same error,
or with a value that owns its cells; what stood below `n` stands there still. -/
inductive Follows (n : Nat) (memory : Memory) :
    Except String Json → EStateM.Result String Memory Slot → Prop where
  | ok {t : Owned} {memory' : Memory} (kept : Kept n memory memory')
      (owns : Owns n memory' t.cells) : Follows n memory (.ok t.value) (.ok t.slot memory')
  | error {e : String} {memory' : Memory} (kept : Kept n memory memory') :
      Follows n memory (.error e) (.error e memory')

theorem Follows.trans {n : Nat} {memory memory' : Memory} {outcome : Except String Json}
    {run : EStateM.Result String Memory Slot} (hkept : Kept n memory memory')
    (h : Follows n memory' outcome run) : Follows n memory outcome run := by
  cases h with
  | ok kept owns => exact .ok (hkept.trans kept) owns
  | error kept => exact .error (hkept.trans kept)

section Operations

variable {n depth : Nat} {memory : Memory}

theorem editParent_error {α : Type} {missing e : String} {document : Json} {path : List String}
    (edit : Json → String → Except String (Json × α))
    (h : PiWorkflows.resolveParent missing document path = .error e) :
    editParent missing edit document path = .error e := by
  induction path generalizing document with
  | nil =>
      cases h
      rfl
  | cons segment rest ih =>
      cases rest with
      | nil => cases h
      | cons next more =>
          rw [PiWorkflows.resolveParent] at h
          rw [editParent]
          cases hchild : PiWorkflows.child missing document segment with
          | error e' =>
              rw [hchild] at h
              cases h
              rfl
          | ok inner =>
              rw [hchild, ok_bind] at h
              rw [ok_bind, ih h]
              rfl

theorem addValue_cons {document value : Json} {segment : String} {rest : List String}
    {replaceOnly : Bool} :
    PiWorkflows.addValue document (segment :: rest) value replaceOnly =
      (editParent (missingPath (encodeJsonPointer (segment :: rest)))
        (PiWorkflows.addChild (missingPath (encodeJsonPointer (segment :: rest))) value replaceOnly)
        document (segment :: rest)).map Prod.fst := by
  rw [PiWorkflows.addValue]
  · cases editParent (missingPath (encodeJsonPointer (segment :: rest))) _ document
      (segment :: rest) <;> rfl
  · exact List.cons_ne_nil _ _

theorem addValue_follows {t v : Owned} {path : List String} {replaceOnly : Bool}
    (howns : Owns n memory (t.cells + v.cells)) :
    Follows n memory (PiWorkflows.addValue t.value path v.value replaceOnly)
      (addValue t.slot path v.slot replaceOnly memory) := by
  cases path with
  | nil => exact .ok (Kept.refl _ _) (howns.mono (Multiset.le_add_left _ _))
  | cons segment rest =>
      have hparent := resolveParent_focus (missingPath (encodeJsonPointer (segment :: rest)))
        (segment :: rest) (howns.mono (Multiset.le_add_right _ _))
      rw [addValue_cons]
      cases hfound : PiWorkflows.resolveParent (missingPath (encodeJsonPointer (segment :: rest)))
          t.value (segment :: rest) with
      | error e =>
          rw [hfound] at hparent
          have hrun : addValue t.slot (segment :: rest) v.slot replaceOnly memory = .error e memory :=
            bind_of_error hparent
          rw [hrun, editParent_error _ hfound]
          exact .error (Kept.refl _ _)
      | ok found =>
          obtain ⟨parent, key⟩ := found
          rw [hfound] at hparent
          obtain ⟨sub, around, put, rfl, hrun, hfocus, hedit⟩ := hparent
          rw [hedit]
          rw [hfocus.cells, add_assoc] at howns
          have hchild := addChild_parent (missingPath (encodeJsonPointer (segment :: rest))) key
            replaceOnly howns
          cases hadd : PiWorkflows.addChild (missingPath (encodeJsonPointer (segment :: rest))) v.value
              replaceOnly sub.value key with
          | error e =>
              rw [hadd] at hchild
              have hrun' : addValue t.slot (segment :: rest) v.slot replaceOnly memory =
                  .error e memory :=
                (bind_of_ok hrun).trans (bind_of_error hchild)
              rw [hrun']
              exact .error (Kept.refl _ _)
          | ok changed =>
              obtain ⟨w, u⟩ := changed
              rw [hadd] at hchild
              obtain ⟨sub', memory', hstored, hslot, rfl, hkept, howns'⟩ := hchild
              obtain ⟨t', ht', hcells, hvalue⟩ := hfocus.plug sub' hslot
              have hrun' : addValue t.slot (segment :: rest) v.slot replaceOnly memory =
                  .ok t.slot memory' :=
                (bind_of_ok hrun).trans (bind_of_ok hstored)
              rw [hrun', ← ht']
              simp only [Except.map, ← hvalue]
              exact .ok hkept (hcells ▸ howns')

/-- A removal hands out the value it took, apart from what is left. -/
inductive Removes (n : Nat) (memory : Memory) :
    Except String (Json × Json) → EStateM.Result String Memory (Slot × Slot) → Prop where
  | ok {t taken : Owned} {memory' : Memory} (kept : Kept n memory memory')
      (owns : Owns n memory' (t.cells + taken.cells)) :
      Removes n memory (.ok (t.value, taken.value)) (.ok (t.slot, taken.slot) memory')
  | error {e : String} : Removes n memory (.error e) (.error e memory)

theorem removeValue_removes {t : Owned} (path : List String) (howns : Owns n memory t.cells) :
    Removes n memory (PiWorkflows.removeValue t.value path) (removeValue t.slot path memory) := by
  cases path with
  | nil => exact .error
  | cons segment rest =>
      have hparent := resolveParent_focus (missingPath (encodeJsonPointer (segment :: rest)))
        (segment :: rest) howns
      have hvalue : PiWorkflows.removeValue t.value (segment :: rest) =
          editParent (missingPath (encodeJsonPointer (segment :: rest)))
            (PiWorkflows.removeChild (missingPath (encodeJsonPointer (segment :: rest))))
            t.value (segment :: rest) := rfl
      rw [hvalue]
      cases hfound : PiWorkflows.resolveParent (missingPath (encodeJsonPointer (segment :: rest)))
          t.value (segment :: rest) with
      | error e =>
          rw [hfound] at hparent
          have hrun : removeValue t.slot (segment :: rest) memory = .error e memory :=
            bind_of_error hparent
          rw [hrun, editParent_error _ hfound]
          exact .error
      | ok found =>
          obtain ⟨parent, key⟩ := found
          rw [hfound] at hparent
          obtain ⟨sub, around, put, rfl, hrun, hfocus, hedit⟩ := hparent
          rw [hedit]
          rw [hfocus.cells] at howns
          have hchild := removeChild_parent (missingPath (encodeJsonPointer (segment :: rest)))
            key howns
          cases hremove : PiWorkflows.removeChild (missingPath (encodeJsonPointer (segment :: rest)))
              sub.value key with
          | error e =>
              rw [hremove] at hchild
              have hrun' : removeValue t.slot (segment :: rest) memory = .error e memory :=
                (bind_of_ok hrun).trans (bind_of_error hchild)
              rw [hrun']
              exact .error
          | ok changed =>
              obtain ⟨w, v⟩ := changed
              rw [hremove] at hchild
              obtain ⟨sub', taken, memory', hstored, hslot, rfl, rfl, hkept, howns'⟩ := hchild
              obtain ⟨t', ht', hcells, hvalue⟩ := hfocus.plug sub' hslot
              have hrun' : removeValue t.slot (segment :: rest) memory =
                  .ok (t.slot, taken.slot) memory' :=
                (bind_of_ok hrun).trans (bind_of_ok hstored)
              rw [hrun', ← ht']
              simp only [Except.map, ← hvalue]
              refine .ok hkept ?_
              rw [hcells, add_assoc, add_comm around]
              exact howns'

/-- A target is found where the value has it. -/
theorem requireTarget_found {t : Owned} (path : List String) (pointer : String)
    (howns : Owns n memory t.cells) :
    (∀ e, PiWorkflows.requireTarget t.value path pointer = .error e →
      requireTarget t.slot path pointer memory = .error e memory) ∧
    ∀ v, PiWorkflows.requireTarget t.value path pointer = .ok v →
      ∃ sub : Owned, sub.value = v ∧ sub.cells ≤ t.cells ∧
        requireTarget t.slot path pointer memory = .ok sub.slot memory := by
  cases path with
  | nil =>
      refine ⟨fun e h => (by cases h), fun v h => ?_⟩
      obtain rfl := Except.ok.inj h
      exact ⟨t, rfl, le_rfl, rfl⟩
  | cons segment rest =>
      have hparent := resolveParent_focus (missingPath (encodeJsonPointer (segment :: rest)))
        (segment :: rest) howns
      have hvalue : PiWorkflows.requireTarget t.value (segment :: rest) pointer =
          PiWorkflows.resolveParent (missingPath (encodeJsonPointer (segment :: rest))) t.value
            (segment :: rest) >>= fun found =>
              PiWorkflows.child (missingPath pointer) found.1 found.2 := rfl
      rw [hvalue]
      cases hfound : PiWorkflows.resolveParent (missingPath (encodeJsonPointer (segment :: rest)))
          t.value (segment :: rest) with
      | error e =>
          rw [hfound] at hparent
          refine ⟨fun e' h => ?_, fun v h => by cases h⟩
          obtain rfl := Except.error.inj h
          exact bind_of_error hparent
      | ok found =>
          obtain ⟨parent, key⟩ := found
          rw [hfound] at hparent
          obtain ⟨sub, around, put, rfl, hrun, hfocus, -⟩ := hparent
          have hle : sub.cells ≤ t.cells := by
            rw [hfocus.cells]
            exact Multiset.le_add_right _ _
          have hchild := child_focus (missingPath pointer) key (howns.mono hle)
          rw [ok_bind]
          simp only
          cases htarget : PiWorkflows.child (missingPath pointer) sub.value key with
          | error e =>
              rw [htarget] at hchild
              refine ⟨fun e' h => ?_, fun v h => by cases h⟩
              obtain rfl := Except.error.inj h
              exact (bind_of_ok hrun).trans hchild
          | ok v =>
              rw [htarget] at hchild
              refine ⟨fun e h => (by cases h), fun v' h => ?_⟩
              obtain rfl := Except.ok.inj h
              obtain ⟨sub', around', rfl, hrun', hfocus'⟩ := hchild
              refine ⟨sub', rfl, le_trans ?_ hle, (bind_of_ok hrun).trans hrun'⟩
              rw [hfocus'.cells]
              exact Multiset.le_add_right _ _

/-- A fresh copy of a value beside a document. -/
theorem copyOf_beside {cells : Multiset (Nat × Cell)} (value : Json) (howns : Owns n memory cells)
    (hn : n ≤ memory.length) :
    ∃ (v : Owned) (memory' : Memory), copyOf value memory = .ok v.slot memory' ∧ v.value = value ∧
      Kept n memory memory' ∧ Owns n memory' (cells + v.cells) := by
  obtain ⟨v, more, hcopy, hvalue, hfresh⟩ := copyOf_spec value memory
  exact ⟨v, _, hcopy, hvalue, kept_append hn, howns.fresh hn hfresh⟩

theorem cloneJson_copyOf {slot : Slot} {value : Json} (h : readJson depth memory slot = some value) :
    cloneJson depth slot memory = copyOf value memory := by
  have hclone := cloneJson_eq_copyOf h []
  rwa [List.append_nil] at hclone

theorem height_at {document value : Json} {path : List String}
    (h : Rfc6902.At document path value) : height value ≤ height document := by
  induction h with
  | here => exact le_rfl
  | item hitem _ ih =>
      have hle := height_le_items (List.mem_of_getElem? hitem)
      rw [height]
      omega
  | member hmember _ ih =>
      have hle := height_le_members (Assoc.mem_of_lookup hmember)
      rw [height]
      omega

/-- An operation in memory follows the operation on values. -/
theorem applyJsonPatchOperation_follows {t : Owned} (operation : JsonPatchOperation)
    (howns : Owns n memory t.cells) (hn : n ≤ memory.length) (hdepth : height t.value ≤ depth) :
    Follows n memory (PiWorkflows.applyJsonPatchOperation t.value operation)
      (applyJsonPatchOperation depth t.slot operation memory) := by
  rw [PiWorkflows.applyJsonPatchOperation, applyJsonPatchOperation]
  cases parseJsonPointer operation.path with
  | error e => exact .error (Kept.refl _ _)
  | ok path =>
      rw [ok_bind, throwing_ok_bind]
      cases operation with
      | add pointer value =>
          obtain ⟨v, memory', hcopy, rfl, hkept, howns'⟩ := copyOf_beside value howns hn
          simp only [bind_of_ok hcopy]
          exact (addValue_follows howns').trans hkept
      | remove pointer =>
          have hremoves := removeValue_removes path howns
          dsimp only
          generalize PiWorkflows.removeValue t.value path = outcome at hremoves
          generalize hrun : removeValue t.slot path memory = run at hremoves
          cases hremoves with
          | ok kept owns =>
              rw [bind_of_ok hrun]
              exact .ok kept (owns.mono (Multiset.le_add_right _ _))
          | error =>
              rw [bind_of_error hrun]
              exact .error (Kept.refl _ _)
      | replace pointer value =>
          by_cases hroot : path = []
          · simp only [if_pos hroot]
            obtain ⟨v, memory', hcopy, rfl, hkept, howns'⟩ := copyOf_beside value howns hn
            rw [hcopy]
            exact .ok hkept (howns'.mono (Multiset.le_add_left _ _))
          · simp only [if_neg hroot]
            have htarget := requireTarget_found path pointer howns
            cases hfound : PiWorkflows.requireTarget t.value path pointer with
            | error e =>
                rw [bind_of_error (htarget.1 e hfound)]
                exact .error (Kept.refl _ _)
            | ok v =>
                obtain ⟨sub, rfl, hle, hrun⟩ := htarget.2 v hfound
                obtain ⟨v, memory', hcopy, rfl, hkept, howns'⟩ := copyOf_beside value howns hn
                rw [ok_bind, bind_of_ok hrun, bind_of_ok hcopy]
                exact (addValue_follows howns').trans hkept
      | copy pointer source =>
          dsimp only
          cases parseJsonPointer source with
          | error e => exact .error (Kept.refl _ _)
          | ok from_ =>
              rw [ok_bind, throwing_ok_bind]
              have htarget := requireTarget_found from_ source howns
              cases hfound : PiWorkflows.requireTarget t.value from_ source with
              | error e =>
                  rw [bind_of_error (htarget.1 e hfound)]
                  exact .error (Kept.refl _ _)
              | ok v =>
                  obtain ⟨sub, rfl, hle, hrun⟩ := htarget.2 v hfound
                  have hheight := (height_at (requireTarget_iff.1 hfound)).trans hdepth
                  have hread := readJson_owned (howns.mono hle) hheight
                  obtain ⟨v, memory', hcopy, hvalue, hkept, howns'⟩ :=
                    copyOf_beside sub.value howns hn
                  have hclone := (cloneJson_copyOf hread).trans hcopy
                  rw [ok_bind, bind_of_ok hrun, bind_of_ok hclone, ← hvalue]
                  exact (addValue_follows howns').trans hkept
      | move pointer source =>
          dsimp only
          cases parseJsonPointer source with
          | error e => exact .error (Kept.refl _ _)
          | ok from_ =>
              rw [ok_bind, throwing_ok_bind]
              by_cases hself : from_ = path
              · simp only [if_pos hself]
                exact .ok (Kept.refl _ _) howns
              · simp only [if_neg hself]
                have htaken : Removes n memory (PiWorkflows.takeMoved t.value path from_)
                    (takeMoved t.slot path from_ memory) := by
                  unfold PiWorkflows.takeMoved takeMoved
                  split
                  · exact .error
                  · split
                    · exact .error
                    · exact removeValue_removes from_ howns
                generalize PiWorkflows.takeMoved t.value path from_ = outcome at htaken
                generalize hrun : takeMoved t.slot path from_ memory = run at htaken
                cases htaken with
                | ok kept owns =>
                    rw [bind_of_ok hrun]
                    exact (addValue_follows owns).trans kept
                | error =>
                    rw [bind_of_error hrun]
                    exact .error (Kept.refl _ _)
      | test pointer value =>
          dsimp only
          have htarget := requireTarget_found path pointer howns
          cases hfound : PiWorkflows.requireTarget t.value path pointer with
          | error e =>
              rw [bind_of_error (htarget.1 e hfound)]
              exact .error (Kept.refl _ _)
          | ok v =>
              obtain ⟨sub, rfl, hle, hrun⟩ := htarget.2 v hfound
              have hheight := (height_at (requireTarget_iff.1 hfound)).trans hdepth
              have hread := readJson_owned (howns.mono hle) hheight
              have hvalue : valueOf depth sub.slot memory = .ok sub.value memory := by
                rw [valueOf, hread]
              rw [ok_bind, bind_of_ok hrun, bind_of_ok hvalue]
              by_cases hequal : canonicalJson sub.value = canonicalJson value
              · rw [require_pos hequal]
                exact .ok (Kept.refl _ _) howns
              · rw [require_neg hequal]
                exact .error (Kept.refl _ _)

end Operations

/-! ## A whole patch -/

theorem kept_length {n : Nat} {memory memory' : Memory} (h : Kept n memory memory')
    (hn : n ≤ memory.length) : n ≤ memory'.length := by
  cases n with
  | zero => exact Nat.zero_le _
  | succ m =>
      have hkept := h m (Nat.lt_succ_self m)
      rw [List.getElem?_eq_getElem hn] at hkept
      exact (List.getElem?_eq_some_iff.1 hkept).1

/-- The operations of a patch in memory follow the operations on values, on a
stack that is high enough for every document they make. -/
theorem foldlM_follows (patch : List JsonPatchOperation) (document : Json) :
    ∃ bound, ∀ depth, bound ≤ depth → ∀ (n : Nat) (memory : Memory) (t : Owned),
      t.value = document → Owns n memory t.cells → n ≤ memory.length →
        Follows n memory (patch.foldlM PiWorkflows.applyJsonPatchOperation document)
          (patch.foldlM (applyJsonPatchOperation depth) t.slot memory) := by
  induction patch generalizing document with
  | nil =>
      refine ⟨0, fun depth _ n memory t hvalue howns _ => ?_⟩
      subst hvalue
      exact .ok (Kept.refl _ _) howns
  | cons operation rest ih =>
      cases hnext : PiWorkflows.applyJsonPatchOperation document operation with
      | error e =>
          refine ⟨height document, fun depth hdepth n memory t hvalue howns hn => ?_⟩
          subst hvalue
          have hfollows := applyJsonPatchOperation_follows operation howns hn hdepth
          rw [hnext] at hfollows
          rw [List.foldlM_cons, List.foldlM_cons, hnext]
          generalize hrun : applyJsonPatchOperation depth t.slot operation memory = run at hfollows
          cases hfollows with
          | error kept =>
              rw [bind_of_error hrun]
              exact .error kept
      | ok next =>
          obtain ⟨bound, hbound⟩ := ih next
          refine ⟨max (height document) bound, fun depth hdepth n memory t hvalue howns hn => ?_⟩
          subst hvalue
          have hfollows := applyJsonPatchOperation_follows operation howns hn
            ((Nat.le_max_left _ _).trans hdepth)
          rw [hnext] at hfollows
          rw [List.foldlM_cons, List.foldlM_cons, hnext, ok_bind]
          generalize hrun : applyJsonPatchOperation depth t.slot operation memory = run at hfollows
          generalize houtcome : Except.ok next = outcome at hfollows
          cases hfollows with
          | error kept => cases houtcome
          | ok kept owns =>
              cases houtcome
              rw [bind_of_ok hrun]
              exact (hbound depth ((Nat.le_max_right _ _).trans hdepth) n _ _ rfl owns
                (kept_length kept hn)).trans kept

/-- The slot holds the value, whatever else refers to its cells. -/
def Reads (memory : Memory) (slot : Slot) (value : Json) : Prop :=
  ∃ depth, readJson depth memory slot = some value

theorem mapM_some_mono {α β : Type} {f g : α → Option β} {l : List α} {r : List β}
    (hfg : ∀ a b, f a = some b → g a = some b) (h : l.mapM f = some r) : l.mapM g = some r := by
  induction l generalizing r with
  | nil => exact h
  | cons a rest ih =>
      rw [List.mapM_cons] at h ⊢
      obtain ⟨b, hb, h⟩ := Option.bind_eq_some_iff.1 h
      obtain ⟨bs, hbs, h⟩ := Option.bind_eq_some_iff.1 h
      rw [hfg a b hb, ih hbs]
      exact h

theorem readJson_mono {depth depth' : Nat} {memory : Memory} {slot : Slot} {value : Json}
    (hle : depth ≤ depth') (h : readJson depth memory slot = some value) :
    readJson depth' memory slot = some value := by
  induction depth generalizing depth' slot value with
  | zero =>
      cases slot with
      | scalar s => cases depth' <;> exact h
      | ref address => cases h
  | succ depth ih =>
      cases slot with
      | scalar s => cases depth' <;> exact h
      | ref address =>
          cases depth' with
          | zero => omega
          | succ depth' =>
              have hle' : depth ≤ depth' := Nat.le_of_succ_le_succ hle
              rw [readJson] at h ⊢
              split at h
              · obtain ⟨values, hvalues, rfl⟩ := Option.map_eq_some_iff.1 h
                rw [mapM_some_mono (fun _ _ => ih hle') hvalues]
                rfl
              · obtain ⟨values, hvalues, rfl⟩ := Option.map_eq_some_iff.1 h
                rw [mapM_some_mono (fun member value hmember => ?_) hvalues]
                · rfl
                · obtain ⟨v, hv, rfl⟩ := Option.map_eq_some_iff.1 hmember
                  rw [ih hle' hv]
                  rfl
              · cases h

/-- How deep the value goes that comes out, if one does. -/
def resultHeight : Except String Json → Nat
  | .ok result => height result
  | .error _ => 0

/-- The application in memory follows the application to the values that its
arguments hold, and no cell that was there before the call is written. -/
theorem applyJsonPatch_follows {memory : Memory} {document patch : Slot} {d p : Json}
    (hd : Reads memory document d) (hp : Reads memory patch p) :
    ∃ bound, ∀ depth, bound ≤ depth →
      Follows memory.length memory (PiWorkflows.applyJsonPatch d p)
        (applyJsonPatch depth document patch memory) := by
  obtain ⟨depthD, hd⟩ := hd
  obtain ⟨depthP, hp⟩ := hp
  have hvalidated : ∀ depth, depthP ≤ depth → validateJsonPatch depth patch memory =
      throwing (PiWorkflows.validateJsonPatch p) memory := by
    intro depth hdepth
    have hvalue : valueOf depth patch memory = .ok p memory := by
      rw [valueOf, readJson_mono hdepth hp]
    exact bind_of_ok hvalue
  cases hpatch : PiWorkflows.validateJsonPatch p with
  | error e =>
      refine ⟨depthP, fun depth hdepth => ?_⟩
      have hrun := hvalidated depth hdepth
      rw [hpatch] at hrun
      rw [PiWorkflows.applyJsonPatch, applyJsonPatch, hpatch, bind_of_error hrun]
      exact .error (Kept.refl _ _)
  | ok operations =>
      obtain ⟨bound, hbound⟩ := foldlM_follows operations d
      refine ⟨max (max depthD depthP)
        (max bound (resultHeight (operations.foldlM PiWorkflows.applyJsonPatchOperation d))),
        fun depth hdepth => ?_⟩
      have hrun := hvalidated depth (by omega)
      rw [hpatch] at hrun
      rw [PiWorkflows.applyJsonPatch, applyJsonPatch, hpatch, bind_of_ok hrun, ok_bind]
      obtain ⟨t, memory', hcopy, hvalue, hkept, howns⟩ :=
        copyOf_beside d (Owns.zero : Owns memory.length memory 0) le_rfl
      have hclone := (cloneJson_copyOf (readJson_mono (by omega : depthD ≤ depth) hd)).trans hcopy
      rw [bind_of_ok hclone]
      rw [zero_add] at howns
      have hfollows := hbound depth (by omega) _ memory' t hvalue howns (kept_length hkept le_rfl)
      generalize hoperations : operations.foldlM (applyJsonPatchOperation depth) t.slot memory' = run
        at hfollows
      generalize hoperated : operations.foldlM PiWorkflows.applyJsonPatchOperation d = outcome
        at hfollows
      cases hfollows with
      | error kept =>
          rw [bind_of_error hoperations]
          exact .error (hkept.trans kept)
      | @ok result memory'' kept owns =>
          have htop : height result.value ≤ depth := by
            have heq : resultHeight (operations.foldlM PiWorkflows.applyJsonPatchOperation d) =
                height result.value := by
              rw [hoperated]
              rfl
            omega
          have hread : valueOf depth result.slot memory'' = .ok result.value memory'' := by
            rw [valueOf, readJson_owned owns htop]
          rw [bind_of_ok hoperations, bind_of_ok hread, ok_bind]
          by_cases hsize : byteLength (canonicalJson result.value) ≤ maxWorkflowSettingsBytes
          · rw [require_pos hsize]
            exact .ok (hkept.trans kept) owns
          · rw [require_neg hsize]
            exact .error (hkept.trans kept)

end PiWorkflows.InPlace
