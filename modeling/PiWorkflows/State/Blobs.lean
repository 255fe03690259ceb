import PiWorkflows.Js.Parse
import PiWorkflows.Js.Text
import PiWorkflows.Js.Utf16
import PiWorkflows.Lib.Fallible
import PiWorkflows.Lib.Table

/-!
# Content-addressed values (`state/database.ts`)

JSON and text share one table of blobs under the digest of their bytes. What is
put is inserted unless the digest is taken, and then the row that is there must
agree with it in media type, length and bytes. The readers of the two kinds ask
for their media type.

A content is the text whose UTF-8 bytes it is, so `content.toString("utf8")` of a
blob is its characters as code units. The digest is a parameter. -/

namespace PiWorkflows

open Fallible

/-- `StateDatabaseMode`. -/
inductive StateDatabaseMode where
  | read_only
  | read_write
  deriving DecidableEq, Repr

/-- A row of `blobs`. -/
structure Blob where
  mediaType : String
  byteLength : Nat
  content : String
  createdAt : Int

/-- The blobs of a database, under their digests. -/
structure StateDatabase (δ : Type) where
  mode : StateDatabaseMode
  blobs : Table δ Blob

namespace StateDatabase

variable {δ : Type} [DecidableEq δ]

/-- A new database, open for writing. -/
def fresh : StateDatabase δ := ⟨.read_write, .empty⟩

/-- `readBlob`. -/
def readBlob (state : StateDatabase δ) (hash : δ) : Option Blob :=
  state.blobs.get? hash

/-- `readJson`. -/
def readJson (state : StateDatabase δ) (hash : δ) : Except String Json :=
  match state.readBlob hash with
  | none => .error "JSON blob is missing or has the wrong media type"
  | some blob => do
      require (blob.mediaType = "application/json")
        "JSON blob is missing or has the wrong media type"
      orThrow "SyntaxError" (parseJson blob.content)

/-- `readText` (`workflows/store.ts`). -/
def readText (state : StateDatabase δ) (hash : δ) : Except String CodeUnits :=
  match state.readBlob hash with
  | none => .error "Text blob is missing or has the wrong media type"
  | some blob => do
      require (blob.mediaType = "text/plain") "Text blob is missing or has the wrong media type"
      .ok (encodeUtf16 blob.content.toList)

section Put

variable (sha256 : String → δ)

/-- `INSERT INTO blobs … ON CONFLICT(blob_hash) DO NOTHING`. -/
def insertBlob (state : StateDatabase δ) (content mediaType : String) (now : Int) :
    StateDatabase δ :=
  { state with
    blobs := (state.blobs.insert? (sha256 content)
      ⟨mediaType, byteLength content, content, now⟩).getD state.blobs }

/-- `putBlob`. -/
def putBlob (state : StateDatabase δ) (content mediaType : String) (now : Int) :
    Except String (δ × StateDatabase δ) := do
  require (state.mode ≠ .read_only)
    "Cannot write a blob through a read-only Pi Workflows database"
  let hash := sha256 content
  let state := state.insertBlob sha256 content mediaType now
  let stored ← orThrow "Content-addressed blob conflict" (state.readBlob hash)
  require (stored.mediaType = mediaType ∧ stored.byteLength = byteLength content ∧
    stored.content = content) "Content-addressed blob conflict"
  .ok (hash, state)

/-- `putJson`. -/
def putJson (state : StateDatabase δ) (value : Json) (now : Int) :
    Except String (δ × StateDatabase δ) :=
  state.putBlob sha256 (canonicalJson value) "application/json" now

/-- `putText`. -/
def putText (state : StateDatabase δ) (value : CodeUnits) (now : Int) :
    Except String (δ × StateDatabase δ) :=
  state.putBlob sha256 (String.ofList (decodeUtf16 value)) "text/plain" now

/-- `value === undefined ? null : putJson(value)`. -/
def putOptionalJson (state : StateDatabase δ) (value : Option Json) (now : Int) :
    Except String (StateDatabase δ) :=
  match value with
  | none => .ok state
  | some value => (state.putJson sha256 value now).map Prod.snd

/-- `value === undefined ? null : putText(value)`. -/
def putOptionalText (state : StateDatabase δ) (value : Option String) (now : Int) :
    Except String (StateDatabase δ) :=
  match value with
  | none => .ok state
  | some value => (state.putText sha256 (encodeUtf16 value.toList) now).map Prod.snd

end Put

end StateDatabase

end PiWorkflows
