import PiWorkflows.Js.Text
import PiWorkflows.Js.Value
import PiWorkflows.Lib.Fallible

/-!
# The presentation of a value (`workflows/decision-presentation.ts`)

A decision is shown as a summary and a list of blocks. `normalizeDecisionPresentation`
reads a presentation and refuses what a channel could not show;
`valueDecisionPresentation` makes one of a JSON value, leaving out what does not
fit, and has it read in the same way.

Texts are code units. The Unicode normal form and the upper case of a code unit
belong to the host, with what the generator relies on (`PresentationHost`).
-/

namespace PiWorkflows

open Fallible

def MAX_PRESENTATION_CODE_UNITS : Nat := 64000
def MAX_PRESENTATION_BLOCKS : Nat := 256
def MAX_PRESENTATION_ITEMS : Nat := 256
def MAX_PRESENTATION_STRING_CODE_UNITS : Nat := 16000

/-- `DecisionPresentationBlock`; `sectionTitle` is the kind `section`. -/
inductive PresentationBlock where
  | paragraph (text : CodeUnits)
  | sectionTitle (title : CodeUnits)
  | bullets (items : List CodeUnits)
  | fields (items : List (CodeUnits × CodeUnits))
  | preformatted (text : CodeUnits)

/-- `DecisionPresentation`. -/
structure DecisionPresentation where
  summary : CodeUnits
  blocks : List PresentationBlock

/-! ## Characters -/

/-- `isControlCode`. -/
def isControlCode (u : UInt16) (allowLineAndTab : Bool) : Bool :=
  if allowLineAndTab && (u == 9 || u == 10) then false else u.toNat ≤ 31 || u == 127

/-- `hasControlCharacter`. -/
def hasControlCharacter (text : CodeUnits) (allowLineAndTab : Bool) : Bool :=
  text.any fun u => isControlCode u allowLineAndTab

/-- A unit that `trim` takes off, and that `\s` matches. -/
def isSpaceUnit (u : UInt16) : Bool :=
  isTrimmed (unitChar u)

/-- `text.trim().length === 0`. -/
def isBlankText (text : CodeUnits) : Bool :=
  text.all isSpaceUnit

/-- `text.trim()`. -/
def trimUnits (text : CodeUnits) : CodeUnits :=
  ((text.dropWhile isSpaceUnit).reverse.dropWhile isSpaceUnit).reverse

/-- `replaceAll("\r\n", "\n").replaceAll("\r", "\n")`. -/
def unixLines : CodeUnits → CodeUnits
  | [] => []
  | [u] => [if u = 13 then 10 else u]
  | u :: v :: rest =>
      if u = 13 then (if v = 10 then 10 :: unixLines rest else 10 :: unixLines (v :: rest))
      else u :: unixLines (v :: rest)

/-- A control character gives way to the replacement character. -/
def replaceControl (u : UInt16) : UInt16 :=
  if isControlCode u true then 0xFFFD else u

/-- `replaceAll` of a run of such units by one space. -/
def spaceRuns (p : UInt16 → Bool) : Bool → CodeUnits → CodeUnits
  | _, [] => []
  | inRun, u :: rest =>
      if p u then (if inRun then spaceRuns p true rest else 0x20 :: spaceRuns p true rest)
      else u :: spaceRuns p false rest

/-- `replaceAll(/([a-z0-9])([A-Z])/gu, "$1 $2")`. -/
def spaceCapitals : CodeUnits → CodeUnits
  | [] => []
  | [u] => [u]
  | u :: v :: rest =>
      if ((unitChar u).isLower || (unitChar u).isDigit) && (unitChar v).isUpper then
        u :: 0x20 :: spaceCapitals (v :: rest)
      else u :: spaceCapitals (v :: rest)

section

variable (nfc : CodeUnits → CodeUnits) (toUpperCase : UInt16 → CodeUnits)

/-- `sanitizeValueText`. -/
def sanitizeValueText (text : CodeUnits) : CodeUnits :=
  (nfc (unixLines text)).map replaceControl

/-- `valueLabel`, up to its first letter. -/
def labelText (key : CodeUnits) : CodeUnits :=
  trimUnits (spaceRuns isSpaceUnit false (spaceCapitals
    (spaceRuns (fun u => u == 0x5F || u == 0x2D) false (sanitizeValueText nfc key))))

/-- `valueLabel`. -/
def valueLabel (key : CodeUnits) : CodeUnits :=
  match labelText nfc key with
  | [] => units "Value"
  | u :: rest => toUpperCase u ++ rest

end

/-- The host: the Unicode normal form, the upper case of one code unit, and SHA-256. -/
structure PresentationHost where
  nfc : CodeUnits → CodeUnits
  toUpperCase : UInt16 → CodeUnits
  sha256 : String → String
  nfc_idem : ∀ s, nfc (nfc s) = nfc s
  /-- A part of a normalised text is normalised. -/
  nfc_infix : ∀ s t, t <:+: s → nfc s = s → nfc t = t
  /-- The replacement character does not compose. -/
  nfc_replace : ∀ s, nfc s = s → nfc (s.map replaceControl) = s.map replaceControl
  nfc_ascii : ∀ s : CodeUnits, (∀ u ∈ s, u.toNat < 128) → nfc s = s
  nfc_blank : ∀ s, isBlankText (nfc s) = isBlankText s
  nfc_control : ∀ s, hasControlCharacter s false = false → hasControlCharacter (nfc s) false = false
  upper_blank : ∀ u, isSpaceUnit u = false → isBlankText (toUpperCase u) = false
  upper_control : ∀ u, isControlCode u false = false →
    hasControlCharacter (toUpperCase u) false = false
  /-- No letter decomposes for good when it is written in upper case. -/
  nfc_label : ∀ key, (nfc (valueLabel nfc toUpperCase key)).length ≤
    (valueLabel nfc toUpperCase key).length
  sha256_hex : ∀ text, (sha256 text).toList.all isHexDigit = true
  sha256_length : ∀ text, (sha256 text).length = 64

/-! ## Reading a presentation -/

/-- A text of the program's own. -/
def textOf (s : CodeUnits) : String :=
  String.ofList (decodeUtf16 s)

/-- `requireRecord`. -/
def requireTreeRecord (value : JsTree) (label : String) :
    Except String (List (CodeUnits × JsTree)) :=
  match value with
  | .obj members => .ok members
  | _ => .error s!"{label} must be an object"

/-- `requireExactKeys`. -/
def requireTreeKeys (members : List (CodeUnits × JsTree)) (allowed : List String)
    (label : String) : Except String Unit := do
  let keys := members.map Prod.fst
  let extras := keys.filter fun key => decide (key ∉ allowed.map units)
  let missing := allowed.filter fun key => decide (units key ∉ keys)
  require (missing = []) s!"{label} is missing {joinWith missing}"
  require (extras = []) s!"{label} has unknown field {joinWith (extras.map textOf)}"
where
  joinWith (names : List String) : String := ", ".intercalate names

/-- `record.key`, which is `undefined` where there is none. -/
def memberOf (members : List (CodeUnits × JsTree)) (key : String) : Option JsTree :=
  members.lookup (units key)

namespace PresentationHost

variable (host : PresentationHost)

/-- `normalizeString`. -/
def normalizeString (value : Option JsTree) (label : String) : Except String CodeUnits :=
  match value with
  | some (.str s) => do
      let text := host.nfc (unixLines s)
      require (isBlankText text = false) s!"{label} must not be empty"
      require (text.length ≤ MAX_PRESENTATION_STRING_CODE_UNITS)
        (s!"{label} has {text.length} UTF-16 code units; limit is " ++
          s!"{MAX_PRESENTATION_STRING_CODE_UNITS}")
      pure text
  | _ => .error s!"{label} must be a string"

/-- `normalizeDisplayString`. -/
def normalizeDisplayString (value : Option JsTree) (label : String) : Except String CodeUnits := do
  let text ← host.normalizeString value label
  require (hasControlCharacter text false = false) s!"{label} contains a control character"
  pure text

/-- `normalizeMultilineString`. -/
def normalizeMultilineString (value : Option JsTree) (label : String) :
    Except String CodeUnits := do
  let text ← host.normalizeString value label
  require (hasControlCharacter text true = false)
    s!"{label} contains a terminal control character"
  pure text

/-- `normalizeItems`. -/
def normalizeItems {α : Type} (value : Option JsTree) (label : String)
    (normalize : JsTree → String → Except String α) : Except String (List α) :=
  match value with
  | some (.arr items) => do
      require (items ≠ []) s!"{label} must be a non-empty array"
      require (items.length ≤ MAX_PRESENTATION_ITEMS)
        s!"{label} has {items.length} items; limit is {MAX_PRESENTATION_ITEMS}"
      items.zipIdx.mapM fun e => normalize e.1 s!"{label} item {e.2 + 1}"
  | _ => .error s!"{label} must be a non-empty array"

/-- A field of a block of fields. -/
def normalizeField (item : JsTree) (label : String) : Except String (CodeUnits × CodeUnits) := do
  let field ← requireTreeRecord item label
  requireTreeKeys field ["label", "value"] label
  let name ← host.normalizeDisplayString (memberOf field "label") s!"{label} label"
  let value ← host.normalizeDisplayString (memberOf field "value") s!"{label} value"
  pure (name, value)

/-- `normalizeBlock`. -/
def normalizeBlock (value : JsTree) (label : String) : Except String PresentationBlock := do
  let block ← requireTreeRecord value label
  let isKind (kind : String) : Bool :=
    match memberOf block "kind" with
    | some (.str s) => decide (s = units kind)
    | _ => false
  if isKind "paragraph" then do
    requireTreeKeys block ["kind", "text"] label
    let text ← host.normalizeMultilineString (memberOf block "text") s!"{label} text"
    pure (.paragraph text)
  else if isKind "section" then do
    requireTreeKeys block ["kind", "title"] label
    let title ← host.normalizeDisplayString (memberOf block "title") s!"{label} title"
    pure (.sectionTitle title)
  else if isKind "bullets" then do
    requireTreeKeys block ["kind", "items"] label
    let items ← normalizeItems (memberOf block "items") s!"{label} items" fun item itemLabel =>
      host.normalizeDisplayString (some item) itemLabel
    pure (.bullets items)
  else if isKind "fields" then do
    requireTreeKeys block ["kind", "items"] label
    let items ← normalizeItems (memberOf block "items") s!"{label} items" host.normalizeField
    pure (.fields items)
  else if isKind "preformatted" then do
    requireTreeKeys block ["kind", "text"] label
    let text ← host.normalizeMultilineString (memberOf block "text") s!"{label} text"
    pure (.preformatted text)
  else .error s!"{label} kind is not supported"

end PresentationHost

/-- `presentationBlockCodeUnits`. -/
def PresentationBlock.codeUnits : PresentationBlock → Nat
  | .paragraph text | .preformatted text => text.length
  | .sectionTitle title => title.length
  | .bullets items => (items.map List.length).sum
  | .fields items => (items.map fun e => e.1.length + e.2.length).sum

/-- `presentationCodeUnits`. -/
def DecisionPresentation.codeUnits (presentation : DecisionPresentation) : Nat :=
  presentation.summary.length + (presentation.blocks.map PresentationBlock.codeUnits).sum

/-- `normalizeDecisionPresentation`. -/
def PresentationHost.normalizeDecisionPresentation (host : PresentationHost) (value : JsTree) :
    Except String DecisionPresentation := do
  let presentation ← requireTreeRecord value "Decision presentation"
  requireTreeKeys presentation ["schema", "summary", "blocks"] "Decision presentation"
  require ((memberOf presentation "schema").any fun schema =>
      match schema with
      | .str s => decide (s = units "pi-workflows.decision-presentation.v1")
      | _ => false)
    "Decision presentation schema must be pi-workflows.decision-presentation.v1"
  let summary ← host.normalizeDisplayString (memberOf presentation "summary")
    "Decision presentation summary"
  match memberOf presentation "blocks" with
  | some (.arr blocks) => do
      require (blocks.length ≤ MAX_PRESENTATION_BLOCKS)
        (s!"Decision presentation has {blocks.length} blocks; limit is " ++
          s!"{MAX_PRESENTATION_BLOCKS}")
      let blocks ← blocks.zipIdx.mapM fun e =>
        host.normalizeBlock e.1 s!"Decision presentation block {e.2 + 1}"
      let normalized : DecisionPresentation := ⟨summary, blocks⟩
      require (normalized.codeUnits ≤ MAX_PRESENTATION_CODE_UNITS)
        (s!"Decision presentation has {normalized.codeUnits} UTF-16 code units; limit is " ++
          s!"{MAX_PRESENTATION_CODE_UNITS}")
      pure normalized
  | _ => .error "Decision presentation blocks must be an array"

/-! ## Presentations as values -/

def PresentationBlock.tree : PresentationBlock → JsTree
  | .paragraph text => .obj [(units "kind", .str (units "paragraph")), (units "text", .str text)]
  | .sectionTitle title =>
      .obj [(units "kind", .str (units "section")), (units "title", .str title)]
  | .bullets items =>
      .obj [(units "kind", .str (units "bullets")), (units "items", .arr (items.map .str))]
  | .fields items =>
      .obj [(units "kind", .str (units "fields")),
        (units "items", .arr (items.map fun e =>
          .obj [(units "label", .str e.1), (units "value", .str e.2)]))]
  | .preformatted text =>
      .obj [(units "kind", .str (units "preformatted")), (units "text", .str text)]

def DecisionPresentation.tree (presentation : DecisionPresentation) : JsTree :=
  .obj [(units "schema", .str (units "pi-workflows.decision-presentation.v1")),
    (units "summary", .str presentation.summary),
    (units "blocks", .arr (presentation.blocks.map PresentationBlock.tree))]

/-! ## The text of a value -/

mutual

/-- `sortJson`. -/
def JsTree.sortJson : JsTree → JsTree
  | .arr items => .arr (JsTree.sortItems items)
  | .obj members => .obj (fromEntries (JsTree.sortMembers members))
  | .null => .null
  | .bool b => .bool b
  | .num n => .num n
  | .str s => .str s

def JsTree.sortItems : List JsTree → List JsTree
  | [] => []
  | x :: xs => JsTree.sortJson x :: JsTree.sortItems xs

def JsTree.sortMembers : List (CodeUnits × JsTree) → List (CodeUnits × JsTree)
  | [] => []
  | (k, x) :: rest => Assoc.insertMember unitRank k (JsTree.sortJson x) (JsTree.sortMembers rest)

end

/-- `canonicalJson`, of `decision-presentation.ts`. -/
def presentedJson (value : JsTree) : String :=
  (JsTree.sortJson value).text

namespace PresentationHost

variable (host : PresentationHost)

/-- `digestCanonical`. -/
def digestCanonical (value : JsTree) : String :=
  "sha256:" ++ host.sha256 (presentedJson value ++ "\n")

def sanitize (text : CodeUnits) : CodeUnits :=
  sanitizeValueText host.nfc text

def label (key : CodeUnits) : CodeUnits :=
  valueLabel host.nfc host.toUpperCase key

/-- `valueScalar`, of the values that are scalars. -/
def valueScalar : JsTree → Option CodeUnits
  | .null => some (units "None")
  | .bool b => some (units (if b then "Yes" else "No"))
  | .num n => some (host.sanitize (units n.text))
  | .str s => some (host.sanitize s)
  | .arr _ | .obj _ => none

/-- The text of a scalar that fits into one string of a block. -/
def inlineScalar (value : JsTree) : Option CodeUnits :=
  (host.valueScalar value).filter fun s => s.length ≤ MAX_PRESENTATION_STRING_CODE_UNITS

end PresentationHost

/-- Where a text may be cut: not inside a surrogate pair. -/
def cutPoint (limit : Nat) (remaining : CodeUnits) : Nat :=
  let cut := min limit remaining.length
  match remaining[cut - 1]? with
  | some last => if isLeadSurrogate last ∧ cut < remaining.length then cut - 1 else cut
  | none => cut

/-- The loop of `splitByCodeUnits`. Every round takes something off the text. -/
def splitRounds (limit : Nat) : Nat → CodeUnits → List CodeUnits
  | 0, _ | _ + 1, [] => []
  | rounds + 1, u :: rest =>
      (u :: rest).take (cutPoint limit (u :: rest)) ::
        splitRounds limit rounds ((u :: rest).drop (cutPoint limit (u :: rest)))

/-- `splitByCodeUnits`. -/
def splitByCodeUnits (value : CodeUnits) (limit : Nat) : List CodeUnits :=
  if value.length ≤ limit then [value] else splitRounds limit value.length value

/-- The slices of a loop that goes on by `MAX_PRESENTATION_ITEMS`. -/
def itemSlices {α : Type} (items : List α) : List (List α) :=
  (List.range ((items.length + (MAX_PRESENTATION_ITEMS - 1)) / MAX_PRESENTATION_ITEMS)).map
    fun n => (items.drop (n * MAX_PRESENTATION_ITEMS)).take MAX_PRESENTATION_ITEMS

/-- A length in decimal. No text and no array is longer than 2^53 - 1. -/
def lengthText (n : Nat) : String :=
  (min n 9007199254740991).repr

/-- `Object.entries(value).sort(…)`. -/
def entriesByName {α : Type} (entries : List (CodeUnits × α)) : List (CodeUnits × α) :=
  entries.insertionSort fun a b => unitRank a.1 ≤ unitRank b.1

namespace PresentationHost

variable (host : PresentationHost)

/-- `appendValueText`. -/
def valueText (value title : CodeUnits) : List PresentationBlock :=
  .sectionTitle title ::
    (splitByCodeUnits (host.sanitize value) MAX_PRESENTATION_STRING_CODE_UNITS).map fun part =>
      .paragraph (if isBlankText part then units "None" else part)

def sectionBlock (label : Option CodeUnits) : List PresentationBlock :=
  (label.map fun label => .sectionTitle (host.label label)).toList

/-- `appendValue` of a scalar. -/
def scalarBlocks (scalar : CodeUnits) : Option CodeUnits → List PresentationBlock
  | none => host.valueText scalar (units "Decision details")
  | some label =>
      if scalar.length > MAX_PRESENTATION_STRING_CODE_UNITS then
        host.valueText scalar (host.label label)
      else [.fields [(host.label label, scalar)]]

mutual

/-- `appendValue`: the blocks it pushes. -/
def valueBlocks : JsTree → Option CodeUnits → List PresentationBlock
  | .arr items, label =>
      host.sectionBlock label ++
        if items = [] then [.paragraph (units "None")]
        else
          match items.mapM host.inlineScalar with
          | some scalars => (itemSlices scalars).map .bullets
          | none => itemBlocks 0 items
  | .obj members, label =>
      host.sectionBlock label ++
        if members = [] then [.paragraph (units "None")]
        else
          ((itemSlices ((entriesByName members).filterMap fun e =>
            (host.inlineScalar e.2).map fun scalar => (host.label e.1, scalar))).map .fields) ++
            (entriesByName (memberBlocks members)).flatMap Prod.snd
  | .null, label => host.scalarBlocks (units "None") label
  | .bool b, label => host.scalarBlocks (units (if b then "Yes" else "No")) label
  | .num n, label => host.scalarBlocks (host.sanitize (units n.text)) label
  | .str s, label => host.scalarBlocks (host.sanitize s) label

/-- The blocks of the items from this number on. -/
def itemBlocks : Nat → List JsTree → List PresentationBlock
  | _, [] => []
  | index, x :: rest =>
      valueBlocks x (some (units s!"Item {index + 1}")) ++ itemBlocks (index + 1) rest

/-- The blocks of the members that are no fields, under their names. -/
def memberBlocks : List (CodeUnits × JsTree) → List (CodeUnits × List PresentationBlock)
  | [] => []
  | (k, x) :: rest =>
      if (host.inlineScalar x).isSome then memberBlocks rest
      else (k, valueBlocks x (some k)) :: memberBlocks rest

end

end PresentationHost

/-! ## What fits -/

/-- `valueBlockFitsSchema`. -/
def PresentationBlock.fitsSchema : PresentationBlock → Bool
  | .paragraph text | .preformatted text => text.length ≤ MAX_PRESENTATION_STRING_CODE_UNITS
  | .sectionTitle title => title.length ≤ MAX_PRESENTATION_STRING_CODE_UNITS
  | .bullets items => items.all fun item => item.length ≤ MAX_PRESENTATION_STRING_CODE_UNITS
  | .fields items => items.all fun item =>
      item.1.length ≤ MAX_PRESENTATION_STRING_CODE_UNITS &&
        item.2.length ≤ MAX_PRESENTATION_STRING_CODE_UNITS

/-- The loop of `boundValuePresentation`: what is kept, and whether anything is not. -/
def keepBlocks (budget : Int) : List PresentationBlock → Nat → Bool → List PresentationBlock →
    List PresentationBlock × Bool
  | kept, _, omitted, [] => (kept, omitted)
  | kept, used, omitted, block :: rest =>
      if MAX_PRESENTATION_BLOCKS ≤ kept.length ∨ block.fitsSchema = false ∨
          budget < used + block.codeUnits then keepBlocks budget kept used true rest
      else keepBlocks budget (kept ++ [block]) (used + block.codeUnits) omitted rest

namespace PresentationHost

variable (host : PresentationHost)

/-- How the notice opens. -/
def omissionOpening : String :=
  "Some decision content is not shown because it exceeds the readable presentation limit. " ++
    "Inspect the canonical source value before answering. Value digest: "

/-- The notice that something is left out. -/
def omissionNotice (value : JsTree) (generated : Nat) : CodeUnits :=
  units (omissionOpening ++ host.digestCanonical value ++ ". Original value: " ++
    lengthText (utf16Length (presentedJson value)) ++ " UTF-16 code units. Generated blocks: " ++
    lengthText generated ++ ".")

/-- `boundValuePresentation`. -/
def boundValuePresentation (summary : CodeUnits) (blocks : List PresentationBlock)
    (value : JsTree) : DecisionPresentation :=
  let candidate : DecisionPresentation := ⟨summary, blocks⟩
  if blocks.length ≤ MAX_PRESENTATION_BLOCKS ∧ blocks.all PresentationBlock.fitsSchema = true ∧
      candidate.codeUnits ≤ MAX_PRESENTATION_CODE_UNITS then candidate
  else
    let omission := host.omissionNotice value blocks.length
    let budget : Int := MAX_PRESENTATION_CODE_UNITS - summary.length - omission.length
    let (kept, omitted) := keepBlocks budget [] 0 false blocks
    let room := if MAX_PRESENTATION_BLOCKS ≤ kept.length then kept.dropLast else kept
    ⟨summary, if omitted then room ++ [.paragraph omission] else kept⟩

/-- The blocks that `valueDecisionPresentation` makes before it bounds them. -/
def generatedBlocks : JsTree → List PresentationBlock
  | .str s => host.valueText s (units "Decision details")
  | value => host.valueBlocks value none

def valueSummary : JsTree → CodeUnits
  | .str _ => units "Review the decision message below."
  | _ => units "Review the decision details below."

/-- The presentation that `valueDecisionPresentation` has read. -/
def boundedPresentation (value : JsTree) : DecisionPresentation :=
  host.boundValuePresentation (valueSummary value) (host.generatedBlocks value) value

/-- `valueDecisionPresentation`. -/
def valueDecisionPresentation (value : JsTree) : Except String DecisionPresentation :=
  host.normalizeDecisionPresentation (host.boundedPresentation value).tree

end PresentationHost

end PiWorkflows
