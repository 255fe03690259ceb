import PiWorkflows.Proofs.PresentationText

/-!
# What the reader of a presentation makes of one

Reading a presentation that was written out as a value gives the same presentation
with every text normalised, if that is within the limits, and nothing otherwise
(`normalizeDecisionPresentation_tree`). So the limits of the reader are stated once,
about what it returns.
-/

namespace PiWorkflows

open Fallible

/-! ## The limits -/

/-- What a reader takes where line breaks may stand, but for its length. -/
structure Multiline (text : CodeUnits) : Prop where
  nonblank : isBlankText text = false
  visible : hasControlCharacter text true = false

/-- A block that can be shown, whatever its strings are long. -/
def PresentationBlock.Readable : PresentationBlock → Prop
  | .paragraph text | .preformatted text => Multiline text
  | .sectionTitle title => Displayable title
  | .bullets items => items ≠ [] ∧ items.length ≤ MAX_PRESENTATION_ITEMS ∧
      ∀ item ∈ items, Displayable item
  | .fields items => items ≠ [] ∧ items.length ≤ MAX_PRESENTATION_ITEMS ∧
      ∀ item ∈ items, Displayable item.1 ∧ Displayable item.2

/-- Every limit that `normalizeDecisionPresentation` enforces. -/
structure DecisionPresentation.WithinLimits (presentation : DecisionPresentation) : Prop where
  summary : Displayable presentation.summary
  summary_length : presentation.summary.length ≤ MAX_PRESENTATION_STRING_CODE_UNITS
  blocks : presentation.blocks.length ≤ MAX_PRESENTATION_BLOCKS
  readable : ∀ block ∈ presentation.blocks, block.Readable
  strings : ∀ block ∈ presentation.blocks, block.fitsSchema = true
  total : presentation.codeUnits ≤ MAX_PRESENTATION_CODE_UNITS

/-! ## Members -/

theorem requireTreeKeys_own {members : List (CodeUnits × JsTree)} {allowed : List String}
    {label : String} (h : members.map Prod.fst = allowed.map units) :
    requireTreeKeys members allowed label = .ok .unit := by
  have hmissing : (allowed.filter fun key => decide (units key ∉ members.map Prod.fst)) = [] := by
    rw [h, List.filter_eq_nil_iff]
    intro key hkey
    simpa using List.mem_map_of_mem (f := units) hkey
  have hextras : ((members.map Prod.fst).filter
      fun key => decide (key ∉ allowed.map units)) = [] := by
    rw [h, List.filter_eq_nil_iff]
    intro key hkey
    simpa using hkey
  simp only [requireTreeKeys, hmissing, hextras]
  rfl

theorem memberOf_self {key : String} {value : JsTree} {rest : List (CodeUnits × JsTree)} :
    memberOf ((units key, value) :: rest) key = some value := by
  simp [memberOf]

theorem memberOf_cons {key other : String} {value : JsTree} {rest : List (CodeUnits × JsTree)}
    (h : units key ≠ units other) :
    memberOf ((units other, value) :: rest) key = memberOf rest key := by
  rw [memberOf, List.lookup_cons, beq_eq_false_iff_ne.2 h]
  rfl

namespace PresentationHost

variable {host : PresentationHost}

/-! ## Strings and items -/

theorem normalizeString_ok {s text : CodeUnits} {label : String} :
    host.normalizeString (some (.str s)) label = .ok text ↔
      text = host.nfc (unixLines s) ∧ isBlankText text = false ∧
        text.length ≤ MAX_PRESENTATION_STRING_CODE_UNITS := by
  simp only [normalizeString, bind_ok, require_ok, pure_ok]
  constructor
  · rintro ⟨_, hblank, _, hlength, rfl⟩
    exact ⟨rfl, hblank, hlength⟩
  · rintro ⟨rfl, hblank, hlength⟩
    exact ⟨.unit, hblank, .unit, hlength, rfl⟩

theorem normalizeDisplayString_ok {s text : CodeUnits} {label : String} :
    host.normalizeDisplayString (some (.str s)) label = .ok text ↔
      text = host.nfc (unixLines s) ∧ Displayable text ∧
        text.length ≤ MAX_PRESENTATION_STRING_CODE_UNITS := by
  simp only [normalizeDisplayString, bind_ok, normalizeString_ok, require_ok, pure_ok]
  constructor
  · rintro ⟨_, ⟨rfl, hblank, hlength⟩, _, hvisible, rfl⟩
    exact ⟨rfl, ⟨hblank, hvisible⟩, hlength⟩
  · rintro ⟨rfl, hdisplay, hlength⟩
    exact ⟨_, ⟨rfl, hdisplay.nonblank, hlength⟩, .unit, hdisplay.visible, rfl⟩

theorem normalizeMultilineString_ok {s text : CodeUnits} {label : String} :
    host.normalizeMultilineString (some (.str s)) label = .ok text ↔
      text = host.nfc (unixLines s) ∧ Multiline text ∧
        text.length ≤ MAX_PRESENTATION_STRING_CODE_UNITS := by
  simp only [normalizeMultilineString, bind_ok, normalizeString_ok, require_ok, pure_ok]
  constructor
  · rintro ⟨_, ⟨rfl, hblank, hlength⟩, _, hvisible, rfl⟩
    exact ⟨rfl, ⟨hblank, hvisible⟩, hlength⟩
  · rintro ⟨rfl, hmulti, hlength⟩
    exact ⟨_, ⟨rfl, hmulti.nonblank, hlength⟩, .unit, hmulti.visible, rfl⟩

/-- A numbered list read item by item, each item in one way if it can be read at all. -/
theorem mapM_zipIdx_ok {α β : Type} {tree : α → JsTree} {form : α → β} {P : β → Prop}
    (read : JsTree → Nat → Except String β)
    (hitem : ∀ x n y, read (tree x) n = .ok y ↔ y = form x ∧ P y) {l : List α} {n : Nat}
    {r : List β} :
    ((l.map tree).zipIdx n).mapM (fun e => read e.1 e.2) = .ok r ↔
      r = l.map form ∧ ∀ y ∈ r, P y := by
  induction l generalizing n r with
  | nil =>
      rw [List.map_nil, List.zipIdx_nil, List.mapM_nil, pure_ok, List.map_nil]
      constructor
      · rintro rfl
        exact ⟨rfl, fun y hy => absurd hy List.not_mem_nil⟩
      · rintro ⟨rfl, -⟩
        rfl
  | cons x rest ih =>
      rw [List.map_cons, List.zipIdx_cons, List.mapM_cons, List.map_cons]
      simp only [bind_ok, pure_ok, hitem, ih]
      constructor
      · rintro ⟨_, ⟨rfl, hfirst⟩, _, ⟨rfl, hrest⟩, rfl⟩
        exact ⟨rfl, List.forall_mem_cons.2 ⟨hfirst, hrest⟩⟩
      · rintro ⟨rfl, hall⟩
        have hboth := List.forall_mem_cons.1 hall
        exact ⟨_, ⟨rfl, hboth.1⟩, _, ⟨rfl, hboth.2⟩, rfl⟩

theorem normalizeItems_ok {α β : Type} {tree : α → JsTree} {label : String}
    {normalize : JsTree → String → Except String β} {form : α → β} {P : β → Prop}
    (hitem : ∀ x itemLabel y, normalize (tree x) itemLabel = .ok y ↔ y = form x ∧ P y)
    {items : List α} {r : List β} :
    normalizeItems (some (.arr (items.map tree))) label normalize = .ok r ↔
      r = items.map form ∧ r ≠ [] ∧ r.length ≤ MAX_PRESENTATION_ITEMS ∧ ∀ y ∈ r, P y := by
  have hread : ∀ {r : List β},
      (items.map tree).zipIdx.mapM (fun e => normalize e.1 s!"{label} item {e.2 + 1}") = .ok r ↔
        r = items.map form ∧ ∀ y ∈ r, P y :=
    mapM_zipIdx_ok (fun item n => normalize item s!"{label} item {n + 1}")
      fun x n => hitem x s!"{label} item {n + 1}"
  have hnil : items.map tree ≠ [] ↔ items.map form ≠ [] := by
    rw [Ne, Ne, List.map_eq_nil_iff, List.map_eq_nil_iff]
  have hlength : (items.map tree).length = (items.map form).length := by
    rw [List.length_map, List.length_map]
  simp only [normalizeItems, bind_ok, require_ok, hnil, hlength]
  constructor
  · rintro ⟨_, hne, _, hmax, hall⟩
    obtain ⟨rfl, hP⟩ := hread.1 hall
    exact ⟨rfl, hne, hmax, hP⟩
  · rintro ⟨rfl, hne, hmax, hP⟩
    exact ⟨.unit, hne, .unit, hmax, hread.2 ⟨rfl, hP⟩⟩

theorem normalizeField_ok {item : CodeUnits × CodeUnits} {label : String}
    {read : CodeUnits × CodeUnits} :
    host.normalizeField (.obj [(units "label", .str item.1), (units "value", .str item.2)]) label =
        .ok read ↔
      read = (host.nfc (unixLines item.1), host.nfc (unixLines item.2)) ∧
        (Displayable read.1 ∧ Displayable read.2) ∧
        read.1.length ≤ MAX_PRESENTATION_STRING_CODE_UNITS ∧
        read.2.length ≤ MAX_PRESENTATION_STRING_CODE_UNITS := by
  have hkeys : requireTreeKeys [(units "label", .str item.1), (units "value", .str item.2)]
      ["label", "value"] label = .ok .unit := requireTreeKeys_own rfl
  have hvalue : memberOf [(units "label", .str item.1), (units "value", .str item.2)] "value" =
      some (.str item.2) := (memberOf_cons (by decide)).trans memberOf_self
  simp only [normalizeField, requireTreeRecord, bind_ok, Except.ok.injEq, exists_eq_left', hkeys,
    memberOf_self, hvalue, normalizeDisplayString_ok, pure_ok]
  constructor
  · rintro ⟨_, -, _, ⟨rfl, hname, hnameLength⟩, _, ⟨rfl, htext, htextLength⟩, rfl⟩
    exact ⟨rfl, ⟨hname, htext⟩, hnameLength, htextLength⟩
  · rintro ⟨rfl, ⟨hname, htext⟩, hnameLength, htextLength⟩
    exact ⟨.unit, trivial, _, ⟨rfl, hname, hnameLength⟩, _, ⟨rfl, htext, htextLength⟩, rfl⟩

/-! ## Blocks -/

/-- A text as it is read. -/
def readText (host : PresentationHost) (text : CodeUnits) : CodeUnits :=
  host.nfc (unixLines text)

/-- A block with its texts as they are read. -/
def normalForm (host : PresentationHost) : PresentationBlock → PresentationBlock
  | .paragraph text => .paragraph (host.readText text)
  | .sectionTitle title => .sectionTitle (host.readText title)
  | .bullets items => .bullets (items.map host.readText)
  | .fields items => .fields (items.map fun e => (host.readText e.1, host.readText e.2))
  | .preformatted text => .preformatted (host.readText text)

theorem normalizeBullets_ok {items read : List CodeUnits} {label : String} :
    normalizeItems (some (.arr (items.map .str))) label
        (fun item itemLabel => host.normalizeDisplayString (some item) itemLabel) = .ok read ↔
      read = items.map host.readText ∧ (PresentationBlock.bullets read).Readable ∧
        (PresentationBlock.bullets read).fitsSchema = true := by
  rw [normalizeItems_ok (fun x itemLabel y => normalizeDisplayString_ok)]
  simp only [PresentationBlock.Readable, PresentationBlock.fitsSchema, List.all_eq_true,
    decide_eq_true_eq]
  constructor
  · rintro ⟨rfl, hne, hmax, hall⟩
    exact ⟨rfl, ⟨hne, hmax, fun y hy => (hall y hy).1⟩, fun y hy => (hall y hy).2⟩
  · rintro ⟨rfl, ⟨hne, hmax, hdisplay⟩, hlength⟩
    exact ⟨rfl, hne, hmax, fun y hy => ⟨hdisplay y hy, hlength y hy⟩⟩

theorem normalizeFields_ok {items read : List (CodeUnits × CodeUnits)} {label : String} :
    normalizeItems (some (.arr (items.map fun e =>
        .obj [(units "label", .str e.1), (units "value", .str e.2)]))) label host.normalizeField =
          .ok read ↔
      read = items.map (fun e => (host.readText e.1, host.readText e.2)) ∧
        (PresentationBlock.fields read).Readable ∧
        (PresentationBlock.fields read).fitsSchema = true := by
  rw [normalizeItems_ok (fun x itemLabel y => normalizeField_ok)]
  simp only [PresentationBlock.Readable, PresentationBlock.fitsSchema, List.all_eq_true,
    Bool.and_eq_true, decide_eq_true_eq]
  constructor
  · rintro ⟨rfl, hne, hmax, hall⟩
    exact ⟨rfl, ⟨hne, hmax, fun y hy => (hall y hy).1⟩, fun y hy => (hall y hy).2⟩
  · rintro ⟨rfl, ⟨hne, hmax, hdisplay⟩, hlength⟩
    exact ⟨rfl, hne, hmax, fun y hy => ⟨hdisplay y hy, hlength y hy⟩⟩

theorem normalizeBlock_tree {block read : PresentationBlock} {label : String} :
    host.normalizeBlock block.tree label = .ok read ↔
      read = host.normalForm block ∧ read.Readable ∧ read.fitsSchema = true := by
  have hnames : units "section" ≠ units "paragraph" ∧ units "bullets" ≠ units "paragraph" ∧
      units "bullets" ≠ units "section" ∧ units "fields" ≠ units "paragraph" ∧
      units "fields" ≠ units "section" ∧ units "fields" ≠ units "bullets" ∧
      units "preformatted" ≠ units "paragraph" ∧ units "preformatted" ≠ units "section" ∧
      units "preformatted" ≠ units "bullets" ∧ units "preformatted" ≠ units "fields" := by decide
  obtain ⟨h1, h2, h3, h4, h5, h6, h7, h8, h9, h10⟩ := hnames
  have hpair : ∀ (kind key : String) (value : JsTree), units key ≠ units "kind" →
      requireTreeKeys [(units "kind", .str (units kind)), (units key, value)] ["kind", key] label =
          .ok .unit ∧
        memberOf [(units "kind", .str (units kind)), (units key, value)] key = some value :=
    fun kind key value hkey => ⟨requireTreeKeys_own rfl, (memberOf_cons hkey).trans memberOf_self⟩
  have htextKey : units "text" ≠ units "kind" := by decide
  have htitleKey : units "title" ≠ units "kind" := by decide
  have hitemsKey : units "items" ≠ units "kind" := by decide
  cases block with
  | paragraph text =>
      obtain ⟨hkeys, hmember⟩ := hpair "paragraph" "text" (.str text) htextKey
      simp only [PresentationBlock.tree, normalizeBlock, requireTreeRecord, memberOf_self, bind_ok,
        Except.ok.injEq, exists_eq_left', decide_true, if_true, hkeys, hmember,
        normalizeMultilineString_ok, pure_ok]
      constructor
      · rintro ⟨_, -, _, ⟨rfl, hmulti, hlength⟩, rfl⟩
        exact ⟨rfl, hmulti, decide_eq_true hlength⟩
      · rintro ⟨rfl, hmulti, hlength⟩
        exact ⟨.unit, trivial, _, ⟨rfl, hmulti, of_decide_eq_true hlength⟩, rfl⟩
  | sectionTitle title =>
      obtain ⟨hkeys, hmember⟩ := hpair "section" "title" (.str title) htitleKey
      simp only [PresentationBlock.tree, normalizeBlock, requireTreeRecord, memberOf_self, bind_ok,
        Except.ok.injEq, exists_eq_left', decide_true, if_true, hkeys, hmember, h1,
        decide_false, Bool.false_eq_true, if_false, normalizeDisplayString_ok, pure_ok]
      constructor
      · rintro ⟨_, -, _, ⟨rfl, hdisplay, hlength⟩, rfl⟩
        exact ⟨rfl, hdisplay, decide_eq_true hlength⟩
      · rintro ⟨rfl, hdisplay, hlength⟩
        exact ⟨.unit, trivial, _, ⟨rfl, hdisplay, of_decide_eq_true hlength⟩, rfl⟩
  | bullets items =>
      obtain ⟨hkeys, hmember⟩ := hpair "bullets" "items" (.arr (items.map .str)) hitemsKey
      simp only [PresentationBlock.tree, normalizeBlock, requireTreeRecord, memberOf_self, bind_ok,
        Except.ok.injEq, exists_eq_left', decide_true, if_true, hkeys, hmember, h2, h3,
        decide_false, Bool.false_eq_true, if_false, normalizeBullets_ok, pure_ok]
      constructor
      · rintro ⟨_, -, _, ⟨rfl, hreadable, hfits⟩, rfl⟩
        exact ⟨rfl, hreadable, hfits⟩
      · rintro ⟨rfl, hreadable, hfits⟩
        exact ⟨.unit, trivial, _, ⟨rfl, hreadable, hfits⟩, rfl⟩
  | fields items =>
      obtain ⟨hkeys, hmember⟩ := hpair "fields" "items" (.arr (items.map fun e =>
          .obj [(units "label", .str e.1), (units "value", .str e.2)])) hitemsKey
      simp only [PresentationBlock.tree, normalizeBlock, requireTreeRecord, memberOf_self, bind_ok,
        Except.ok.injEq, exists_eq_left', decide_true, if_true, hkeys, hmember, h4, h5,
        h6, decide_false, Bool.false_eq_true, if_false, normalizeFields_ok, pure_ok]
      constructor
      · rintro ⟨_, -, _, ⟨rfl, hreadable, hfits⟩, rfl⟩
        exact ⟨rfl, hreadable, hfits⟩
      · rintro ⟨rfl, hreadable, hfits⟩
        exact ⟨.unit, trivial, _, ⟨rfl, hreadable, hfits⟩, rfl⟩
  | preformatted text =>
      obtain ⟨hkeys, hmember⟩ := hpair "preformatted" "text" (.str text) htextKey
      simp only [PresentationBlock.tree, normalizeBlock, requireTreeRecord, memberOf_self, bind_ok,
        Except.ok.injEq, exists_eq_left', decide_true, if_true, hkeys, hmember, h7, h8,
        h9, h10, decide_false, Bool.false_eq_true, if_false, normalizeMultilineString_ok, pure_ok]
      constructor
      · rintro ⟨_, -, _, ⟨rfl, hmulti, hlength⟩, rfl⟩
        exact ⟨rfl, hmulti, decide_eq_true hlength⟩
      · rintro ⟨rfl, hmulti, hlength⟩
        exact ⟨.unit, trivial, _, ⟨rfl, hmulti, of_decide_eq_true hlength⟩, rfl⟩
/-! ## The presentation -/

/-- A presentation with its texts as they are read. -/
def normalPresentation (host : PresentationHost) (presentation : DecisionPresentation) :
    DecisionPresentation :=
  ⟨host.readText presentation.summary, presentation.blocks.map host.normalForm⟩

theorem normalizeDecisionPresentation_tree {presentation read : DecisionPresentation} :
    host.normalizeDecisionPresentation presentation.tree = .ok read ↔
      read = host.normalPresentation presentation ∧ read.WithinLimits := by
  have hkeys : requireTreeKeys
      [(units "schema", .str (units "pi-workflows.decision-presentation.v1")),
        (units "summary", .str presentation.summary),
        (units "blocks", .arr (presentation.blocks.map PresentationBlock.tree))]
      ["schema", "summary", "blocks"] "Decision presentation" = .ok .unit := requireTreeKeys_own rfl
  have hsummary : memberOf
      [(units "schema", .str (units "pi-workflows.decision-presentation.v1")),
        (units "summary", .str presentation.summary),
        (units "blocks", .arr (presentation.blocks.map PresentationBlock.tree))] "summary" =
      some (.str presentation.summary) := (memberOf_cons (by decide)).trans memberOf_self
  have hblocks : memberOf
      [(units "schema", .str (units "pi-workflows.decision-presentation.v1")),
        (units "summary", .str presentation.summary),
        (units "blocks", .arr (presentation.blocks.map PresentationBlock.tree))] "blocks" =
      some (.arr (presentation.blocks.map PresentationBlock.tree)) :=
    ((memberOf_cons (by decide)).trans (memberOf_cons (by decide))).trans memberOf_self
  have hread : ∀ {r : List PresentationBlock},
      (presentation.blocks.map PresentationBlock.tree).zipIdx.mapM (fun e =>
          host.normalizeBlock e.1 s!"Decision presentation block {e.2 + 1}") = .ok r ↔
        r = presentation.blocks.map host.normalForm ∧
          ∀ block ∈ r, block.Readable ∧ block.fitsSchema = true :=
    mapM_zipIdx_ok (fun block n => host.normalizeBlock block s!"Decision presentation block {n + 1}")
      fun block n read => normalizeBlock_tree
  simp only [DecisionPresentation.tree, normalizeDecisionPresentation, requireTreeRecord, bind_ok,
    Except.ok.injEq, exists_eq_left', hkeys, memberOf_self, hsummary, hblocks, Option.any_some,
    decide_true, require_ok, normalizeDisplayString_ok, hread, pure_ok]
  have hcount : (presentation.blocks.map PresentationBlock.tree).length =
      (presentation.blocks.map host.normalForm).length := by
    rw [List.length_map, List.length_map]
  constructor
  · rintro ⟨_, -, _, -, _, ⟨rfl, hdisplay, hlength⟩, _, hmax, _, ⟨rfl, hall⟩, _, htotal, rfl⟩
    exact ⟨rfl, hdisplay, hlength, hcount ▸ hmax, fun block hblock => (hall block hblock).1,
      fun block hblock => (hall block hblock).2, htotal⟩
  · rintro ⟨rfl, hlimits⟩
    refine ⟨.unit, trivial, .unit, trivial, _, ⟨rfl, hlimits.summary, hlimits.summary_length⟩,
      .unit, hcount ▸ hlimits.blocks, _, ⟨rfl, fun block hblock => ?_⟩, .unit, hlimits.total, rfl⟩
    exact ⟨hlimits.readable block hblock, hlimits.strings block hblock⟩

end PresentationHost

end PiWorkflows
