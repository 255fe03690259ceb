import Mathlib.Algebra.Order.BigOperators.Group.List
import Mathlib.Algebra.Order.Group.Nat
import PiWorkflows.Proofs.PresentationReader

/-!
# The blocks that are generated of a value

Every block is one that a reader takes as it is, but for its length and for the
scalars that stand in a field or in a list: these are shown on one line, and nothing
keeps a string of the value from being blank or from holding a tab or a line feed
(`Generated`). These scalars are the ones inside an array or an object that fit into
a string of a block (`inline_generatedBlocks`).
-/

namespace PiWorkflows

/-- What a list gives item by item, when every item gives something. -/
theorem mem_of_mapM_some {α β : Type} {f : α → Option β} {l : List α} {r : List β}
    (h : l.mapM f = some r) {b : β} : b ∈ r ↔ ∃ a ∈ l, f a = some b := by
  induction l generalizing r with
  | nil =>
      cases h
      simp
  | cons a rest ih =>
      rw [List.mapM_cons] at h
      obtain ⟨c, hfirst, h⟩ := Option.bind_eq_some_iff.1 h
      obtain ⟨cs, hrest, h⟩ := Option.bind_eq_some_iff.1 h
      rw [← Option.some.inj h, List.mem_cons, ih hrest, List.exists_mem_cons_iff, hfirst,
        Option.some.injEq, eq_comm]

theorem some_of_mapM {α β : Type} {f : α → Option β} {l : List α} {r : List β}
    (h : l.mapM f = some r) : ∀ a ∈ l, ∃ b, f a = some b := by
  induction l generalizing r with
  | nil => exact fun a ha => absurd ha List.not_mem_nil
  | cons a rest ih =>
      rw [List.mapM_cons] at h
      obtain ⟨b, hb, h⟩ := Option.bind_eq_some_iff.1 h
      obtain ⟨bs, hbs, -⟩ := Option.bind_eq_some_iff.1 h
      exact List.forall_mem_cons.2 ⟨⟨b, hb⟩, ih hbs⟩

namespace PresentationHost

variable {host : PresentationHost}

/-! ## What is generated -/

/-- A block as the generator makes it. -/
def Generated (host : PresentationHost) : PresentationBlock → Prop
  | .paragraph text => host.Settled text ∧ isBlankText text = false
  | .sectionTitle title => host.Titled title
  | .bullets items => items ≠ [] ∧ items.length ≤ MAX_PRESENTATION_ITEMS ∧
      ∀ item ∈ items, host.Settled item
  | .fields items => items ≠ [] ∧ items.length ≤ MAX_PRESENTATION_ITEMS ∧
      ∀ item ∈ items, host.Titled item.1 ∧ host.Settled item.2
  | .preformatted _ => False

theorem sectionBlock_generated (label : Option CodeUnits) :
    ∀ block ∈ host.sectionBlock label, host.Generated block := by
  intro block hblock
  cases label with
  | none => cases hblock
  | some label =>
      rw [sectionBlock, Option.map_some, Option.toList_some, List.mem_singleton] at hblock
      rw [hblock]
      exact label_titled label

theorem none_generated : host.Generated (.paragraph (units "None")) :=
  ⟨plain_settled (.of_all (by decide)), by decide⟩

theorem valueText_generated {value title : CodeUnits} (htitle : host.Titled title) :
    ∀ block ∈ host.valueText value title, host.Generated block := by
  intro block hblock
  rcases List.mem_cons.1 hblock with rfl | hblock
  · exact htitle
  · obtain ⟨part, hpart, rfl⟩ := List.mem_map.1 hblock
    have hsettled := (sanitize_settled value).of_part (infix_of_splitByCodeUnits hpart)
    split
    · exact none_generated
    · next hblank => exact ⟨hsettled, by simpa using hblank⟩

theorem scalarBlocks_generated {scalar : CodeUnits} (h : host.Settled scalar)
    (label : Option CodeUnits) :
    ∀ block ∈ host.scalarBlocks scalar label, host.Generated block := by
  have hdetails : host.Titled (units "Decision details") :=
    plain_titled (.of_all (by decide)) (by decide)
  cases label with
  | none => exact valueText_generated hdetails
  | some label =>
      rw [scalarBlocks]
      split
      · exact valueText_generated (label_titled label)
      · intro block hblock
        rw [List.mem_singleton.1 hblock]
        refine ⟨List.cons_ne_nil _ _, Nat.le_of_ble_eq_true rfl, fun item hitem => ?_⟩
        rw [List.mem_singleton.1 hitem]
        exact ⟨label_titled label, h⟩

theorem valueScalar_settled {value : JsTree} {scalar : CodeUnits}
    (h : host.valueScalar value = some scalar) : host.Settled scalar := by
  cases value with
  | null =>
      cases h
      exact plain_settled (.of_all (by decide))
  | bool b =>
      cases h
      cases b with
      | true => exact plain_settled (.of_all (by decide))
      | false => exact plain_settled (.of_all (by decide))
  | num n =>
      cases h
      exact sanitize_settled _
  | str s =>
      cases h
      exact sanitize_settled s
  | arr items => cases h
  | obj members => cases h

theorem inlineScalar_settled {value : JsTree} {scalar : CodeUnits}
    (h : host.inlineScalar value = some scalar) : host.Settled scalar :=
  valueScalar_settled (Option.filter_eq_some_iff.1 h).1

theorem fields_generated {fields : List (CodeUnits × CodeUnits)}
    (h : ∀ field ∈ fields, host.Titled field.1 ∧ host.Settled field.2) :
    ∀ block ∈ (itemSlices fields).map PresentationBlock.fields, host.Generated block := by
  intro block hblock
  obtain ⟨slice, hslice, rfl⟩ := List.mem_map.1 hblock
  have hlength := itemSlices_length hslice
  exact ⟨hlength.1, hlength.2, fun field hfield => h field (mem_itemSlices.1 ⟨slice, hslice, hfield⟩)⟩

theorem bullets_generated {items : List CodeUnits} (h : ∀ item ∈ items, host.Settled item) :
    ∀ block ∈ (itemSlices items).map PresentationBlock.bullets, host.Generated block := by
  intro block hblock
  obtain ⟨slice, hslice, rfl⟩ := List.mem_map.1 hblock
  have hlength := itemSlices_length hslice
  exact ⟨hlength.1, hlength.2, fun item hitem => h item (mem_itemSlices.1 ⟨slice, hslice, hitem⟩)⟩

theorem mem_entriesByName {α : Type} {entries : List (CodeUnits × α)} {e : CodeUnits × α} :
    e ∈ entriesByName entries ↔ e ∈ entries :=
  (List.perm_insertionSort _ entries).mem_iff

mutual

theorem valueBlocks_generated (value : JsTree) (label : Option CodeUnits) :
    ∀ block ∈ host.valueBlocks value label, host.Generated block := by
  match value with
  | .null => exact scalarBlocks_generated (@valueScalar_settled host .null _ rfl) label
  | .bool b => exact scalarBlocks_generated (@valueScalar_settled host (.bool b) _ rfl) label
  | .num n => exact scalarBlocks_generated (sanitize_settled _) label
  | .str s => exact scalarBlocks_generated (sanitize_settled s) label
  | .arr items =>
      rw [valueBlocks]
      refine List.forall_mem_append.2 ⟨sectionBlock_generated label, ?_⟩
      split
      · simpa using none_generated
      · cases hscalars : items.mapM host.inlineScalar with
        | none => exact itemBlocks_generated 0 items
        | some scalars =>
            refine bullets_generated fun item hitem => ?_
            obtain ⟨x, -, hx⟩ := (mem_of_mapM_some hscalars).1 hitem
            exact inlineScalar_settled hx
  | .obj members =>
      rw [valueBlocks]
      refine List.forall_mem_append.2 ⟨sectionBlock_generated label, ?_⟩
      split
      · simpa using none_generated
      · refine List.forall_mem_append.2 ⟨fields_generated fun field hfield => ?_, ?_⟩
        · obtain ⟨e, -, hfield⟩ := List.mem_filterMap.1 hfield
          obtain ⟨scalar, hscalar, rfl⟩ := Option.map_eq_some_iff.1 hfield
          exact ⟨label_titled e.1, inlineScalar_settled hscalar⟩
        · intro block hblock
          obtain ⟨e, he, hblock⟩ := List.mem_flatMap.1 hblock
          exact memberBlocks_generated members e (mem_entriesByName.1 he) block hblock

theorem itemBlocks_generated (index : Nat) (items : List JsTree) :
    ∀ block ∈ host.itemBlocks index items, host.Generated block := by
  match items with
  | [] => simp [itemBlocks]
  | x :: rest =>
      rw [itemBlocks]
      exact List.forall_mem_append.2
        ⟨valueBlocks_generated x _, itemBlocks_generated (index + 1) rest⟩

theorem memberBlocks_generated (members : List (CodeUnits × JsTree)) :
    ∀ e ∈ host.memberBlocks members, ∀ block ∈ e.2, host.Generated block := by
  match members with
  | [] => simp [memberBlocks]
  | (k, x) :: rest =>
      rw [memberBlocks]
      split
      · exact memberBlocks_generated rest
      · exact List.forall_mem_cons.2 ⟨valueBlocks_generated x _, memberBlocks_generated rest⟩

end

end PresentationHost

/-! ## What stands on one line -/

/-- The texts of the value that stand where no line break may. -/
def PresentationBlock.inlineTexts : PresentationBlock → List CodeUnits
  | .bullets items => items
  | .fields items => items.map Prod.snd
  | _ => []

mutual

/-- The scalars of a value. -/
def JsTree.leaves : JsTree → List JsTree
  | .arr items => itemLeaves items
  | .obj members => memberLeaves members
  | .null => [.null]
  | .bool b => [.bool b]
  | .num n => [.num n]
  | .str s => [.str s]

def itemLeaves : List JsTree → List JsTree
  | [] => []
  | x :: rest => x.leaves ++ itemLeaves rest

def memberLeaves : List (CodeUnits × JsTree) → List JsTree
  | [] => []
  | (_, x) :: rest => x.leaves ++ memberLeaves rest

end

/-- The scalars inside an array or an object. -/
def JsTree.innerLeaves : JsTree → List JsTree
  | .arr items => itemLeaves items
  | .obj members => memberLeaves members
  | _ => []

/-- The scalars that a value shows under a label, or under none. -/
def JsTree.labelled (value : JsTree) : Option CodeUnits → List JsTree
  | some _ => value.leaves
  | none => value.innerLeaves

theorem mem_itemLeaves {items : List JsTree} {x : JsTree} :
    x ∈ itemLeaves items ↔ ∃ item ∈ items, x ∈ item.leaves := by
  induction items with
  | nil => simp [itemLeaves]
  | cons item rest ih => rw [itemLeaves, List.mem_append, ih, List.exists_mem_cons_iff]

namespace PresentationHost

variable {host : PresentationHost}

/-- The texts of the value that these blocks show on one line. -/
def Inline (blocks : List PresentationBlock) (text : CodeUnits) : Prop :=
  ∃ block ∈ blocks, text ∈ block.inlineTexts

theorem inline_append {first second : List PresentationBlock} {text : CodeUnits} :
    Inline (first ++ second) text ↔ Inline first text ∨ Inline second text := by
  simp only [Inline, List.mem_append, or_and_right, exists_or]

/-- Only a scalar has a text of its own. -/
theorem leaves_of_inlineScalar {value : JsTree} {scalar : CodeUnits}
    (h : host.inlineScalar value = some scalar) : value.leaves = [value] := by
  cases value with
  | null => rfl
  | bool b => rfl
  | num n => rfl
  | str s => rfl
  | arr items => cases h
  | obj members => cases h

theorem inline_sectionBlock {label : Option CodeUnits} {text : CodeUnits} :
    ¬ Inline (host.sectionBlock label) text := by
  rintro ⟨block, hblock, htext⟩
  cases label with
  | none => cases hblock
  | some label =>
      rw [List.mem_singleton.1 hblock] at htext
      cases htext

theorem inline_valueText {value title text : CodeUnits} :
    ¬ Inline (host.valueText value title) text := by
  rintro ⟨block, hblock, htext⟩
  rcases List.mem_cons.1 hblock with rfl | hblock
  · cases htext
  · obtain ⟨part, -, rfl⟩ := List.mem_map.1 hblock
    cases htext

theorem inline_paragraph {note text : CodeUnits} : ¬ Inline [.paragraph note] text := by
  rintro ⟨block, hblock, htext⟩
  rw [List.mem_singleton.1 hblock] at htext
  cases htext

theorem inline_bullets {items : List CodeUnits} {text : CodeUnits} :
    Inline ((itemSlices items).map .bullets) text ↔ text ∈ items := by
  rw [← mem_itemSlices]
  constructor
  · rintro ⟨block, hblock, htext⟩
    obtain ⟨slice, hslice, rfl⟩ := List.mem_map.1 hblock
    exact ⟨slice, hslice, htext⟩
  · rintro ⟨slice, hslice, htext⟩
    exact ⟨_, List.mem_map_of_mem hslice, htext⟩

theorem inline_fields {fields : List (CodeUnits × CodeUnits)} {text : CodeUnits} :
    Inline ((itemSlices fields).map .fields) text ↔ ∃ field ∈ fields, field.2 = text := by
  constructor
  · rintro ⟨block, hblock, htext⟩
    obtain ⟨slice, hslice, rfl⟩ := List.mem_map.1 hblock
    obtain ⟨field, hfield, rfl⟩ := List.mem_map.1 htext
    exact ⟨field, mem_itemSlices.1 ⟨slice, hslice, hfield⟩, rfl⟩
  · rintro ⟨field, hfield, rfl⟩
    obtain ⟨slice, hslice, hmem⟩ := mem_itemSlices.2 hfield
    exact ⟨_, List.mem_map_of_mem hslice, List.mem_map_of_mem hmem⟩

theorem inline_scalarBlocks {value : JsTree} {scalar : CodeUnits}
    (hscalar : host.valueScalar value = some scalar) (label : CodeUnits) {text : CodeUnits} :
    Inline (host.scalarBlocks scalar (some label)) text ↔ host.inlineScalar value = some text := by
  rw [inlineScalar, hscalar, Option.filter_some]
  by_cases hlong : scalar.length ≤ MAX_PRESENTATION_STRING_CODE_UNITS
  · rw [scalarBlocks, if_neg (by omega), if_pos (by simpa using hlong), Option.some.injEq]
    constructor
    · rintro ⟨block, hblock, htext⟩
      rw [List.mem_singleton.1 hblock] at htext
      exact (List.mem_singleton.1 htext).symm
    · rintro rfl
      exact ⟨_, List.mem_singleton_self _, List.mem_singleton_self _⟩
  · rw [scalarBlocks, if_pos (by omega), if_neg (by simpa using hlong)]
    exact iff_of_false inline_valueText (by simp)

/-- A scalar under a label, or under none. -/
theorem inline_scalar {v : JsTree} {scalar : CodeUnits} (hscalar : host.valueScalar v = some scalar)
    (hleaves : v.leaves = [v]) (hinner : v.innerLeaves = []) (label : Option CodeUnits)
    {text : CodeUnits} :
    Inline (host.scalarBlocks scalar label) text ↔
      ∃ x ∈ v.labelled label, host.inlineScalar x = some text := by
  cases label with
  | none =>
      rw [JsTree.labelled, hinner]
      exact iff_of_false inline_valueText (by simp)
  | some label =>
      rw [JsTree.labelled, hleaves, inline_scalarBlocks hscalar]
      simp

mutual

theorem inline_valueBlocks (value : JsTree) (label : Option CodeUnits) {text : CodeUnits} :
    Inline (host.valueBlocks value label) text ↔
      ∃ x ∈ value.labelled label, host.inlineScalar x = some text := by
  match value with
  | .null => exact inline_scalar (v := .null) rfl rfl rfl label
  | .bool b => exact inline_scalar (v := .bool b) rfl rfl rfl label
  | .num n => exact inline_scalar (v := .num n) rfl rfl rfl label
  | .str s => exact inline_scalar (v := .str s) rfl rfl rfl label
  | .arr items =>
      have hlabelled : (JsTree.arr items).labelled label = itemLeaves items := by
        cases label <;> rfl
      rw [valueBlocks, inline_append, or_iff_right inline_sectionBlock, hlabelled]
      split
      · next hempty =>
          rw [hempty]
          exact iff_of_false inline_paragraph (by simp [itemLeaves])
      · cases hscalars : items.mapM host.inlineScalar with
        | none => exact inline_itemBlocks 0 items
        | some scalars =>
            show Inline ((itemSlices scalars).map .bullets) text ↔ _
            rw [inline_bullets, mem_of_mapM_some hscalars]
            have hleaves : ∀ item ∈ items, item.leaves = [item] := fun item hitem =>
              have ⟨scalar, hscalar⟩ := some_of_mapM hscalars item hitem
              leaves_of_inlineScalar hscalar
            constructor
            · rintro ⟨item, hitem, htext⟩
              refine ⟨item, mem_itemLeaves.2 ⟨item, hitem, ?_⟩, htext⟩
              rw [hleaves item hitem]
              exact List.mem_singleton_self item
            · rintro ⟨x, hx, htext⟩
              obtain ⟨item, hitem, hx⟩ := mem_itemLeaves.1 hx
              rw [hleaves item hitem, List.mem_singleton] at hx
              exact ⟨item, hitem, hx ▸ htext⟩
  | .obj members =>
      have hlabelled : (JsTree.obj members).labelled label = memberLeaves members := by
        cases label <;> rfl
      rw [valueBlocks, inline_append, or_iff_right inline_sectionBlock, hlabelled]
      split
      · next hempty =>
          rw [hempty]
          exact iff_of_false inline_paragraph (by simp [memberLeaves])
      · rw [inline_append, inline_fields, ← inline_memberBlocks members]
        refine or_congr ?_ ?_
        · constructor
          · rintro ⟨field, hfield, rfl⟩
            obtain ⟨e, he, hfield⟩ := List.mem_filterMap.1 hfield
            obtain ⟨scalar, hscalar, rfl⟩ := Option.map_eq_some_iff.1 hfield
            exact ⟨e, mem_entriesByName.1 he, hscalar⟩
          · rintro ⟨e, he, htext⟩
            refine ⟨(host.label e.1, text), List.mem_filterMap.2 ⟨e, mem_entriesByName.2 he, ?_⟩, rfl⟩
            rw [htext, Option.map_some]
        · constructor
          · rintro ⟨block, hblock, htext⟩
            obtain ⟨e, he, hblock⟩ := List.mem_flatMap.1 hblock
            exact ⟨e, mem_entriesByName.1 he, block, hblock, htext⟩
          · rintro ⟨e, he, block, hblock, htext⟩
            exact ⟨block, List.mem_flatMap.2 ⟨e, mem_entriesByName.2 he, hblock⟩, htext⟩

theorem inline_itemBlocks (index : Nat) (items : List JsTree) {text : CodeUnits} :
    Inline (host.itemBlocks index items) text ↔
      ∃ x ∈ itemLeaves items, host.inlineScalar x = some text := by
  match items with
  | [] => simp [itemBlocks, itemLeaves, Inline]
  | x :: rest =>
      rw [itemBlocks, inline_append, inline_valueBlocks x, inline_itemBlocks (index + 1) rest,
        itemLeaves]
      simp only [List.mem_append, or_and_right, exists_or, JsTree.labelled]

/-- The members that are fields and the blocks of the others. -/
theorem inline_memberBlocks (members : List (CodeUnits × JsTree)) {text : CodeUnits} :
    ((∃ e ∈ members, host.inlineScalar e.2 = some text) ∨
        ∃ e ∈ host.memberBlocks members, Inline e.2 text) ↔
      ∃ x ∈ memberLeaves members, host.inlineScalar x = some text := by
  match members with
  | [] => simp [memberBlocks, memberLeaves]
  | (k, x) :: rest =>
      have hrest := @inline_memberBlocks rest text
      rw [memberBlocks, memberLeaves, List.exists_mem_cons_iff]
      simp only [List.mem_append, or_and_right, exists_or]
      cases hscalar : host.inlineScalar x with
      | some scalar =>
          rw [if_pos Option.isSome_some, leaves_of_inlineScalar hscalar, or_assoc, hrest]
          simp [hscalar]
      | none =>
          rw [if_neg (by simp), List.exists_mem_cons_iff, inline_valueBlocks x (some k), ← hrest]
          simp only [JsTree.labelled, reduceCtorEq, false_or]
          exact or_left_comm

end

theorem inline_generatedBlocks {value : JsTree} {text : CodeUnits} :
    Inline (host.generatedBlocks value) text ↔
      ∃ x ∈ value.innerLeaves, host.inlineScalar x = some text := by
  cases value with
  | str s => exact iff_of_false inline_valueText (by simp [JsTree.innerLeaves])
  | null => exact inline_valueBlocks _ none
  | bool b => exact inline_valueBlocks _ none
  | num n => exact inline_valueBlocks _ none
  | arr items => exact inline_valueBlocks _ none
  | obj members => exact inline_valueBlocks _ none

theorem generatedBlocks_generated (value : JsTree) :
    ∀ block ∈ host.generatedBlocks value, host.Generated block := by
  cases value with
  | str s => exact valueText_generated (plain_titled (.of_all (by decide)) (by decide))
  | null => exact valueBlocks_generated _ none
  | bool b => exact valueBlocks_generated _ none
  | num n => exact valueBlocks_generated _ none
  | arr items => exact valueBlocks_generated _ none
  | obj members => exact valueBlocks_generated _ none

/-! ## Reading what is generated -/

theorem Generated.readable {block : PresentationBlock} (h : host.Generated block)
    (hinline : ∀ text ∈ block.inlineTexts, Displayable text) : block.Readable := by
  cases block with
  | paragraph text => exact ⟨h.2, h.1.visible⟩
  | sectionTitle title => exact h.toDisplayable
  | bullets items => exact ⟨h.1, h.2.1, hinline⟩
  | fields items =>
      refine ⟨h.1, h.2.1, fun item hitem => ⟨(h.2.2 item hitem).1.toDisplayable, ?_⟩⟩
      exact hinline item.2 (List.mem_map_of_mem hitem)
  | preformatted text => exact h.elim

/-- The texts on one line of a block that is readable. -/
theorem displayable_of_readable {block : PresentationBlock} (h : block.Readable) :
    ∀ text ∈ block.inlineTexts, Displayable text := by
  cases block with
  | paragraph text => exact fun text htext => absurd htext List.not_mem_nil
  | sectionTitle title => exact fun text htext => absurd htext List.not_mem_nil
  | bullets items => exact h.2.2
  | fields items =>
      intro text htext
      obtain ⟨item, hitem, rfl⟩ := List.mem_map.1 htext
      exact (h.2.2 item hitem).2
  | preformatted text => exact fun text htext => absurd htext List.not_mem_nil

/-- Reading a block changes its labels only, and lengthens none. -/
theorem Generated.read {block : PresentationBlock} (h : host.Generated block)
    (hreadable : block.Readable) (hfits : block.fitsSchema = true) :
    (host.normalForm block).Readable ∧ (host.normalForm block).fitsSchema = true ∧
      (host.normalForm block).codeUnits ≤ block.codeUnits := by
  cases block with
  | paragraph text =>
      rw [normalForm, readText, h.1.read]
      exact ⟨hreadable, hfits, le_rfl⟩
  | sectionTitle title =>
      have hlength := of_decide_eq_true hfits
      rw [normalForm, readText, Titled.read h]
      exact ⟨Titled.normalized h, decide_eq_true (h.shrinks.trans hlength), h.shrinks⟩
  | bullets items =>
      have hsame : items.map host.readText = items :=
        (List.map_congr_left fun item hitem => (h.2.2 item hitem).read).trans (List.map_id' items)
      rw [normalForm, hsame]
      exact ⟨hreadable, hfits, le_rfl⟩
  | fields items =>
      have hread : items.map (fun e => (host.readText e.1, host.readText e.2)) =
          items.map fun e => (host.nfc e.1, e.2) := List.map_congr_left fun item hitem =>
        Prod.ext (h.2.2 item hitem).1.read (h.2.2 item hitem).2.read
      rw [normalForm, hread]
      have hlength := List.all_eq_true.1 hfits
      refine ⟨⟨?_, ?_, ?_⟩, List.all_eq_true.2 ?_, ?_⟩
      · rw [Ne, List.map_eq_nil_iff]
        exact h.1
      · rw [List.length_map]
        exact h.2.1
      · intro item hitem
        obtain ⟨e, he, rfl⟩ := List.mem_map.1 hitem
        exact ⟨(h.2.2 e he).1.normalized, (hreadable.2.2 e he).2⟩
      · intro item hitem
        obtain ⟨e, he, rfl⟩ := List.mem_map.1 hitem
        have hboth := hlength e he
        rw [Bool.and_eq_true, decide_eq_true_eq, decide_eq_true_eq] at hboth ⊢
        exact ⟨(h.2.2 e he).1.shrinks.trans hboth.1, hboth.2⟩
      · rw [PresentationBlock.codeUnits, PresentationBlock.codeUnits, List.map_map]
        exact List.sum_le_sum fun e he => Nat.add_le_add_right (h.2.2 e he).1.shrinks _
  | preformatted text => exact h.elim

end PresentationHost

end PiWorkflows
