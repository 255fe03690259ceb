import Mathlib.Data.Rat.Defs
import PiWorkflows.Js.Text
import PiWorkflows.Workflows.DecisionText

/-!
# Bounded prompt evidence (`workflows/prompt-evidence.ts`)

A step result that reaches a prompt is projected to a bounded copy. A registered
view replaces a whole value by what a prompt needs of it, and the generic rules
bound strings, arrays, objects and depth, whatever the view returned. What is
left out is stood for by a reference with a digest and a size.

A projection keeps, beside the value that the function returns, which view gave
each part of it; `Projected.value` forgets that.
-/

namespace PiWorkflows

/-- The host: its collation and SHA-256 in hexadecimal digits. -/
structure EvidenceHost where
  collation : Collation
  sha256 : String → String

def EVIDENCE_REF_SCHEMA : String := "pi-workflows.evidence-ref.v1"

def EVIDENCE_TEXT_CHARS : Nat := 4000

/-- `MAX_COMMAND_BATCH_ITEMS`. -/
def EVIDENCE_MAX_ITEMS : Nat := 64

def EVIDENCE_MAX_FIELDS : Nat := 200

def EVIDENCE_MAX_DEPTH : Nat := 8

def EXCERPT_MARKER_CHARS : Nat := 40

/-! ## References -/

/-- A bounded stand-in for a value. -/
structure EvidenceRef where
  digest : String
  chars : Nat
  text : Option CodeUnits
  omitted : Option Nat
  deriving DecidableEq

/-- The reference as the object it is. -/
def EvidenceRef.value (ref : EvidenceRef) : JsValue :=
  .obj true ([(units "schema", .str (units EVIDENCE_REF_SCHEMA)),
      (units "digest", .str (units ref.digest)), (units "chars", .num (.ofNat ref.chars))] ++
    (ref.text.map fun text => (units "text", JsValue.str text)).toList ++
    (ref.omitted.map fun n => (units "omitted", JsValue.num (.ofNat n))).toList)

/-- `typeof value`. -/
def JsValue.typeof : JsValue → String
  | .undefined => "undefined"
  | .null | .arr _ | .obj _ _ => "object"
  | .bool _ => "boolean"
  | .num _ | .negativeZero | .notFinite => "number"
  | .str _ => "string"
  | .bigint => "bigint"
  | .function => "function"
  | .symbol => "symbol"

/-- `value ?? null`. -/
def JsValue.orNull : JsValue → JsValue
  | .undefined => .null
  | v => v

/-- `refSource`: a value that JSON has no text for is named by its type. -/
def refSource (host : EvidenceHost) (value : JsValue) : JsValue :=
  match collatedJson host.collation value.orNull with
  | .ok (some _) => value.orNull
  | _ => .obj true [(units "unsupported", .str (units value.typeof))]

/-- The text of what a reference measures and digests. -/
def refText (host : EvidenceHost) (value : JsValue) : String :=
  match collatedJson host.collation (refSource host value) with
  | .ok (some text) => text
  | _ => ""

/-- `refDigest`. -/
def refDigest (host : EvidenceHost) (value : JsValue) : String :=
  "sha256:" ++ host.sha256 (refText host value)

/-- `refChars`. -/
def refChars (host : EvidenceHost) : JsValue → Nat
  | .str s => s.length
  | value => utf16Length (refText host value)

/-- `excerpt`: the head and the tail of a text. -/
def excerpt (value : CodeUnits) : CodeUnits :=
  let keep := (EVIDENCE_TEXT_CHARS - EXCERPT_MARKER_CHARS) / 2
  let head := value.take keep
  let tail := value.drop (value.length - keep)
  let omitted := value.length - head.length - tail.length
  head ++ units ("\n[... " ++ omitted.repr ++ " chars omitted ...]\n") ++ tail

/-- `evidenceRef`. -/
def evidenceRef (host : EvidenceHost) (value : JsValue) : EvidenceRef where
  digest := refDigest host value
  chars := refChars host value
  text :=
    match value with
    | .str s => if s.length > EVIDENCE_TEXT_CHARS then some (excerpt s) else none
    | _ => none
  omitted := none

/-- `isPlainObject`. -/
def JsValue.isPlainObject : JsValue → Bool
  | .obj plain _ => plain
  | _ => false

/-- `isEvidenceRef`. -/
def isEvidenceRef : JsValue → Bool
  | .obj true members =>
      match members.lookup (units "schema") with
      | some (.str s) => s = units EVIDENCE_REF_SCHEMA
      | _ => false
  | _ => false

/-! ## Ledgers -/

/-- One projected step result, as a prompt lists it. -/
structure EvidenceLedgerEntry where
  attemptId : CodeUnits
  nodeId : CodeUnits
  outcome : CodeUnits
  error : Option CodeUnits
  output : JsValue

def EvidenceLedgerEntry.value (entry : EvidenceLedgerEntry) : JsValue :=
  .obj true ([(units "attemptId", .str entry.attemptId), (units "nodeId", .str entry.nodeId),
      (units "outcome", .str entry.outcome)] ++
    (entry.error.map fun error => (units "error", JsValue.str error)).toList ++
    [(units "output", entry.output)])

/-- `ledgerChars`. -/
def ledgerChars (entries : List EvidenceLedgerEntry) : Nat :=
  match (JsValue.arr (entries.map EvidenceLedgerEntry.value)).stringify with
  | .ok (some text) => utf16Length text
  | _ => MAX_SAFE_INTEGER

/-- The loop of `boundLedger`, with this many entries still to look at. -/
def boundLedgerFrom (host : EvidenceHost) (entries : List EvidenceLedgerEntry) (budgetChars : ℚ) :
    Nat → Nat → List EvidenceLedgerEntry → Nat → Nat → Option (List EvidenceLedgerEntry) →
      List EvidenceLedgerEntry
  | 0, _, _, _, _, smallest => smallest.getD entries
  | remaining + 1, index, bounded, total, smallestChars, smallest =>
      if budgetChars < total then
        match bounded[index]? with
        | none =>
            boundLedgerFrom host entries budgetChars remaining (index + 1) bounded total
              smallestChars smallest
        | some entry =>
            if isEvidenceRef entry.output then
              boundLedgerFrom host entries budgetChars remaining (index + 1) bounded total
                smallestChars smallest
            else
              let bounded := bounded.set index
                { entry with output := (evidenceRef host entry.output).value }
              let total := ledgerChars bounded
              if total ≤ budgetChars then bounded
              else if total < smallestChars then
                boundLedgerFrom host entries budgetChars remaining (index + 1) bounded total total
                  (some bounded)
              else
                boundLedgerFrom host entries budgetChars remaining (index + 1) bounded total
                  smallestChars smallest
      else smallest.getD entries

/-- `boundLedger`. -/
def boundLedger (host : EvidenceHost) (entries : List EvidenceLedgerEntry) (budgetChars : ℚ) :
    List EvidenceLedgerEntry :=
  boundLedgerFrom host entries budgetChars entries.length 0 entries (ledgerChars entries)
    (ledgerChars entries) none

/-! ## Projections -/

/-- Registered views by the schema of the result. A view that throws has no value. -/
abbrev EvidenceViews := List (CodeUnits × (JsValue → Option JsValue))

/-- A projected value and the views that gave its parts. -/
inductive Projected where
  | scalar (v : JsValue)
  | ref (r : EvidenceRef)
  | arr (items : List Projected) (marker : Option EvidenceRef)
  | obj (fields : List (CodeUnits × Projected)) (marker : Option (CodeUnits × EvidenceRef))
  | viewed (schema : CodeUnits) (result : Projected)

mutual

/-- The value that the projection returns. -/
def Projected.value : Projected → JsValue
  | .scalar v => v
  | .ref r => r.value
  | .arr items marker => .arr (itemValues items ++ (marker.map EvidenceRef.value).toList)
  | .obj fields marker =>
      .obj true (fieldValues fields ++ (marker.map fun m => (m.1, m.2.value)).toList)
  | .viewed _ result => result.value

def itemValues : List Projected → List JsValue
  | [] => []
  | p :: ps => p.value :: itemValues ps

def fieldValues : List (CodeUnits × Projected) → List (CodeUnits × JsValue)
  | [] => []
  | (k, p) :: rest => (k, p.value) :: fieldValues rest

end

/-- The key that `omittedFieldsKey` tries at this index. -/
def omittedName : Nat → CodeUnits
  | 1 => units "omittedFields"
  | index => units "omittedFields" ++ units index.repr

/-- The search goes on while the key is taken, which it is at most once for each name. -/
def omittedFieldsFrom (names : List CodeUnits) : Nat → Nat → CodeUnits
  | 0, index => omittedName index
  | tries + 1, index =>
      if omittedName index ∈ names then omittedFieldsFrom names tries (index + 1)
      else omittedName index

/-- `omittedFieldsKey`. -/
def omittedFieldsKey (names : List CodeUnits) : CodeUnits :=
  omittedFieldsFrom names names.length 1

/-- `knownSchema`: the view that a value asks for, unless it ran on the path already. -/
def knownSchema (views : EvidenceViews) (applied : List CodeUnits) :
    JsValue → Option CodeUnits
  | .obj true members =>
      match members.lookup (units "schema") with
      | some (.str schema) =>
          if schema = [] then none
          else if schema ∈ applied then none
          else if schema ∈ views.map Prod.fst then some schema
          else none
      | _ => none
  | _ => none

/-- `callView`. -/
def callView (views : EvidenceViews) (schema : CodeUnits) (value : JsValue) : Option JsValue :=
  (views.lookup schema).bind fun view => view value

/-- How many registered views have not run on the path. -/
def unapplied (views : EvidenceViews) (applied : List CodeUnits) : Nat :=
  ((views.map Prod.fst).filter fun schema => schema ∉ applied).length

theorem knownSchema_some {views : EvidenceViews} {applied : List CodeUnits} {value : JsValue}
    {schema : CodeUnits} (h : knownSchema views applied value = some schema) :
    schema ∈ views.map Prod.fst ∧ schema ∉ applied := by
  unfold knownSchema at h
  repeat' split at h
  all_goals cases h
  next hschema hfresh hknown => exact ⟨hknown, hfresh⟩

theorem unapplied_cons {views : EvidenceViews} {applied : List CodeUnits} {schema : CodeUnits}
    (hknown : schema ∈ views.map Prod.fst) (hfresh : schema ∉ applied) :
    unapplied views (schema :: applied) < unapplied views applied := by
  have hsplit : (views.map Prod.fst).filter (fun s => s ∉ schema :: applied) =
      ((views.map Prod.fst).filter fun s => s ∉ applied).filter fun s => s ≠ schema := by
    rw [List.filter_filter]
    refine List.filter_congr fun s _ => ?_
    by_cases hs : s = schema <;> simp [hs]
  have hmem : schema ∈ (views.map Prod.fst).filter fun s => s ∉ applied :=
    List.mem_filter.2 ⟨hknown, by simpa using hfresh⟩
  rw [unapplied, unapplied, hsplit]
  exact List.length_filter_lt_length_iff_exists.2 ⟨schema, hmem, by simp⟩

/-- `projectScalar`. -/
def projectScalar (host : EvidenceHost) : JsValue → Projected
  | .null | .undefined => .scalar .null
  | .num n => .scalar (.num n)
  | .negativeZero => .scalar .negativeZero
  | .notFinite => .scalar .notFinite
  | .bool b => .scalar (.bool b)
  | value => .ref (evidenceRef host value)

mutual

/-- `projectValue`. A view result opens a fresh depth budget and closes the view. -/
def projectValue (host : EvidenceHost) (views : EvidenceViews) (value : JsValue) (depth : Nat)
    (applied : List CodeUnits) : Projected :=
  match _hschema : knownSchema views applied value with
  | some schema =>
      match callView views schema value with
      | some viewed =>
          .viewed schema (projectUnregistered host views viewed 0 (schema :: applied))
      | none => projectUnregistered host views value depth applied
  | none => projectUnregistered host views value depth applied
termination_by (unapplied views applied, EVIDENCE_MAX_DEPTH - depth, 2)
decreasing_by
  · exact Prod.Lex.left _ _ (unapplied_cons (knownSchema_some _hschema).1
      (knownSchema_some _hschema).2)
  · exact Prod.Lex.right _ (Prod.Lex.right _ (by decide))
  · exact Prod.Lex.right _ (Prod.Lex.right _ (by decide))

/-- `projectUnregistered`, with `projectArray` and `projectObject`. -/
def projectUnregistered (host : EvidenceHost) (views : EvidenceViews) (value : JsValue)
    (depth : Nat) (applied : List CodeUnits) : Projected :=
  match value with
  | .str s =>
      if s.length > EVIDENCE_TEXT_CHARS then .ref (evidenceRef host value) else .scalar (.str s)
  | .arr items =>
      if h : depth ≥ EVIDENCE_MAX_DEPTH then .ref (evidenceRef host value)
      else
        let kept := (items.take EVIDENCE_MAX_ITEMS).map fun item =>
          projectValue host views item (depth + 1) applied
        let dropped := items.drop EVIDENCE_MAX_ITEMS
        .arr kept (if dropped.length = 0 then none
          else some { evidenceRef host (.arr dropped) with omitted := some dropped.length })
  | .obj true members =>
      if h : depth ≥ EVIDENCE_MAX_DEPTH then .ref (evidenceRef host value)
      else
        let entries := enumerated members
        let projected := fromEntries ((entries.take EVIDENCE_MAX_FIELDS).map fun e =>
          (e.1, projectValue host views e.2 (depth + 1) applied))
        let dropped := entries.drop EVIDENCE_MAX_FIELDS
        .obj projected (if dropped.length > 0 then
            some (omittedFieldsKey (projected.map Prod.fst),
              { evidenceRef host (.obj true (fromEntries dropped)) with
                omitted := some dropped.length })
          else none)
  | value => projectScalar host value
termination_by (unapplied views applied, EVIDENCE_MAX_DEPTH - depth, 1)
decreasing_by
  · exact Prod.Lex.right _ (Prod.Lex.left _ _ (by omega))
  · exact Prod.Lex.right _ (Prod.Lex.left _ _ (by omega))

end

/-- `projectEvidence`. -/
def projectEvidence (host : EvidenceHost) (value : JsValue) (views : EvidenceViews) : JsValue :=
  (projectValue host views value 0 []).value

end PiWorkflows
