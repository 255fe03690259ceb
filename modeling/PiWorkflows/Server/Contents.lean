import PiWorkflows.Client.Protocol
import PiWorkflows.Js.Encoding

/-!
# Values as a view carries them (`server/view.ts`, `workflows/store.ts`)

A value that a run has produced goes into a view as it is, or, if it is long, as a
reference to its bytes: an object whose only member is `$artifact`. A value that
looks like a reference, or like the escape of one, is put under `$escaped`.

The bytes behind a reference are rows of `run_view_content`, which are never
changed, and a cache in front of them drops the contents that were used least
recently. Rows leave with their run, which is not modelled. SHA-256 is a parameter,
a function to 32 bytes.
-/

namespace PiWorkflows

open Fallible

def INLINE_CONTENT_BYTES : Nat := 16 * 1024

def CONTENT_CHUNK_BYTES : Nat := 192 * 1024

def CONTENT_CACHE_BYTES : Int := 64 * 1024 * 1024

/-- `buffer.constants.MAX_LENGTH`. -/
def BUFFER_MAX_LENGTH : Nat := MAX_SAFE_INTEGER

/-- The media types of a content. -/
inductive MediaType where
  | text
  | json
  deriving DecidableEq

def MediaType.name : MediaType → String
  | .text => "text/plain"
  | .json => "application/json"

def MediaType.extension : MediaType → List Char
  | .text => ['.', 't', 'x', 't']
  | .json => ['.', 'j', 's', 'o', 'n']

/-! ## Escapes -/

/-- The name of the only member: `Object.keys(value).length === 1`. -/
def soleKey : List (String × Json) → Option String
  | [] => none
  | (k, _) :: rest => if rest.all (fun e => e.1 = k) then some k else none

mutual

def escapeArtifactSentinels : Json → Json
  | .arr items => .arr (escapeItems items)
  | .obj members =>
      let escaped := .obj (escapeMembers members)
      if soleKey members = some "$artifact" ∨ soleKey members = some "$escaped" then
        .obj [("$escaped", escaped)]
      else escaped
  | .null => .null
  | .bool b => .bool b
  | .num n => .num n
  | .str s => .str s

def escapeItems : List Json → List Json
  | [] => []
  | x :: xs => escapeArtifactSentinels x :: escapeItems xs

def escapeMembers : List (String × Json) → List (String × Json)
  | [] => []
  | (k, x) :: rest => (k, escapeArtifactSentinels x) :: escapeMembers rest

end

/-! ## Contents -/

/-- `ContentRecord`. -/
structure ContentRecord where
  runId : String
  path : String
  mediaType : MediaType
  bytes : Bytes
  sha256 : String

/-- A row of `run_view_content`, under its run, its digest and its media type. -/
structure ContentRow where
  byteLength : Nat
  content : Bytes
  createdAt : Int

/-- The runs, the stored contents, and the cache as a `Map` in insertion order. -/
structure ViewContents where
  runs : List String := []
  stored : Table (String × Bytes × MediaType) ContentRow := .empty
  contentRecords : List (String × ContentRecord) := []
  contentBytes : Int := 0

/-- The text whose bytes are the content of a value. -/
def contentText (value : Json) : MediaType → String
  | .json => canonicalJson value
  | .text =>
      match value with
      | .str text => text
      | _ => canonicalJson value

/-- `typeof value === "string" ? "text/plain" : "application/json"`. -/
def mediaTypeOf : Json → MediaType
  | .str _ => .text
  | _ => .json

/-- `Buffer.from(text, "utf8")`. -/
def bufferOfText (text : String) : Except String Bytes := do
  let bytes := encodeUtf8 text.toList
  require (bytes.length ≤ BUFFER_MAX_LENGTH) "The buffer is too large"
  pure bytes

/-- `contentKey`. -/
def contentKey (runId contentPath : String) : String :=
  runId ++ String.singleton (Char.ofNat 0) ++ contentPath

def contentPrefix : List Char := "artifacts/sha256/".toList

/-- The path of a content by the digits of its digest. -/
def contentPath (digits : List Char) (mediaType : MediaType) : String :=
  String.ofList (contentPrefix ++ (digits ++ mediaType.extension))

/-- `/^artifacts\/sha256\/([0-9a-f]{64})\.(json|txt)$/u`. -/
def matchContentPath (path : String) : Option (List Char × MediaType) := do
  let rest ← contentPrefix.isPrefixOf? path.toList
  let digits := rest.take 64
  if digits.length = 64 ∧ digits.all isHexDigit = true then
    if rest.drop 64 = MediaType.json.extension then some (digits, .json)
    else if rest.drop 64 = MediaType.text.extension then some (digits, .text)
    else none
  else none

section Digest

variable (sha256 : Bytes → Vector UInt8 32)

/-- `createHash("sha256").update(bytes).digest("hex")`, as its digits. -/
def hexDigest (bytes : Bytes) : List Char :=
  hexOfBytes (sha256 bytes).toList

end Digest

/-- What stands in a view for a content. -/
def contentReference (path : String) (mediaType : MediaType) (bytes : Nat) (sha256 : String) :
    Json :=
  .obj [("$artifact", .obj
    [("path", .str path), ("mediaType", .str mediaType.name), ("bytes", .num (.ofNat bytes)),
      ("sha256", .str sha256), ("opaque", .bool true)])]

namespace ViewContents

/-- The contents that stay when the oldest are dropped, and their bytes. -/
def evictOldest : Int → List (String × ContentRecord) → Int × List (String × ContentRecord)
  | bytes, oldest :: next :: rest =>
      if CONTENT_CACHE_BYTES < bytes then
        evictOldest (bytes - oldest.2.bytes.length) (next :: rest)
      else (bytes, oldest :: next :: rest)
  | bytes, records => (bytes, records)

/-- `rememberContent`. -/
def rememberContent (view : ViewContents) (record : ContentRecord) : ViewContents :=
  let key := contentKey record.runId record.path
  let previous := ((view.contentRecords.lookup key).map fun r => r.bytes.length).getD 0
  let kept := evictOldest (view.contentBytes - previous + record.bytes.length)
    (Assoc.eraseKey key view.contentRecords ++ [(key, record)])
  { view with contentBytes := kept.1, contentRecords := kept.2 }

/-- `readContentBlob`. -/
def readContentBlob (view : ViewContents) (runId : String) (digits : List Char)
    (mediaType : MediaType) : Option Bytes := do
  let row ← view.stored.get? (runId, bytesOfHex digits, mediaType)
  if row.content.length = row.byteLength then some row.content else none

/-- `recoverContent`. -/
def recoverContent (view : ViewContents) (runId path : String) :
    Option (ContentRecord × ViewContents) := do
  let (digits, mediaType) ← matchContentPath path
  let content ← view.readContentBlob runId digits mediaType
  let record : ContentRecord := ⟨runId, path, mediaType, content, String.ofList digits⟩
  some (record, view.rememberContent record)

/-- The part of a content from an offset on, as `content` returns it. -/
def contentChunk (runId : String) (record : ContentRecord) (offset : Nat) : Json :=
  let nextOffset := min record.bytes.length (offset + CONTENT_CHUNK_BYTES)
  let data := (record.bytes.drop offset).take (nextOffset - offset)
  .obj
    [("schema", .str "pi-workflows.content-chunk.v1"), ("runId", .str runId),
      ("path", .str record.path), ("mediaType", .str record.mediaType.name),
      ("bytes", .num (.ofNat record.bytes.length)), ("sha256", .str record.sha256),
      ("offset", .num (.ofNat offset)), ("nextOffset", .num (.ofNat nextOffset)),
      ("complete", .bool (nextOffset = record.bytes.length)),
      ("data", .str (String.ofList (base64OfBytes data)))]

/-- The content that is in the cache, or is found in the database. -/
def findContent (view : ViewContents) (runId path : String) :
    Option (ContentRecord × ViewContents) :=
  match view.contentRecords.lookup (contentKey runId path) with
  | some record => some (record, view)
  | none => view.recoverContent runId path

/-- The content moves to the end of the cache. -/
def touchContent (view : ViewContents) (key : String) (record : ContentRecord) : ViewContents :=
  { view with contentRecords := Assoc.eraseKey key view.contentRecords ++ [(key, record)] }

/-- `content`. The cache has changed also if the offset is refused. -/
def content (view : ViewContents) (runId path : String) (offset : Nat) :
    Except String (Option Json) × ViewContents :=
  match view.findContent runId path with
  | none => (.ok none, view)
  | some (record, view) =>
      let view := view.touchContent (contentKey runId path) record
      if record.bytes.length < offset then
        (.error "Workflow content offset is outside the content range", view)
      else (.ok (some (contentChunk runId record offset)), view)

section Digest

variable (sha256 : Bytes → Vector UInt8 32)

/-- `INSERT … ON CONFLICT(run_id, content_hash, media_type) DO NOTHING`. -/
def insertContent (view : ViewContents) (runId : String) (content : Bytes)
    (mediaType : MediaType) (now : Int) : ViewContents :=
  let key := (runId, (sha256 content).toList, mediaType)
  { view with
    stored := (view.stored.insert? key ⟨content.length, content, now⟩).getD view.stored }

/-- `persistViewContent`. -/
def persistViewContent (view : ViewContents) (runId : String) (content : Bytes)
    (mediaType : MediaType) (now : Int) : Except String (List Char × ViewContents) := do
  require (runId ∈ view.runs) s!"Workflow run not found: {runId}"
  let view := view.insertContent sha256 runId content mediaType now
  let row ← orThrow "Run-scoped view content conflict"
    (view.stored.get? (runId, (sha256 content).toList, mediaType))
  require (row.byteLength = content.length ∧ row.content = content)
    "Run-scoped view content conflict"
  pure (hexDigest sha256 content, view)

/-- `registerContent`. -/
def registerContent (view : ViewContents) (runId : String) (value : Json) (mediaType : MediaType)
    (now : Int) : Except String (Json × ViewContents) := do
  let bytes ← bufferOfText (contentText value mediaType)
  let digits := hexDigest sha256 bytes
  let (persisted, view) ← view.persistViewContent sha256 runId bytes mediaType now
  require (persisted = digits) "Workflow view content digest changed"
  let path := contentPath digits mediaType
  let record : ContentRecord := ⟨runId, path, mediaType, bytes, String.ofList digits⟩
  pure (contentReference path mediaType bytes.length (String.ofList digits),
    view.rememberContent record)

/-- `projectValue`. -/
def projectValue (view : ViewContents) (runId : String) (value : Json) (now : Int) :
    Except String (Json × ViewContents) := do
  let bytes ← bufferOfText (contentText value (mediaTypeOf value))
  if bytes.length ≤ INLINE_CONTENT_BYTES then
    pure (escapeArtifactSentinels value, view)
  else view.registerContent sha256 runId value (mediaTypeOf value) now

end Digest

end ViewContents

/-- What the server does with contents. Projecting a value registers it or does
nothing. A restart empties the cache. -/
inductive ViewAction where
  | createRun (runId : String)
  | register (runId : String) (value : Json) (mediaType : MediaType) (now : Int)
  | content (runId path : String) (offset : Nat)
  | restart

namespace ViewContents

variable (sha256 : Bytes → Vector UInt8 32)

def act (view : ViewContents) : ViewAction → ViewContents
  | .createRun runId => { view with runs := runId :: view.runs }
  | .register runId value mediaType now =>
      match view.registerContent sha256 runId value mediaType now with
      | .ok (_, view) => view
      | .error _ => view
  | .content runId path offset => (view.content runId path offset).2
  | .restart => { view with contentRecords := [], contentBytes := 0 }

def acts (view : ViewContents) (actions : List ViewAction) : ViewContents :=
  actions.foldl (act sha256) view

end ViewContents

end PiWorkflows
