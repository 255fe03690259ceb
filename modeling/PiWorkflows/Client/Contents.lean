import PiWorkflows.Server.Contents

/-!
# Values as a client reads them (`client/client.ts`)

A reference in a view is replaced by the content it refers to, which comes in
chunks, and what was escaped is taken out of its wrapper. A payload and a receipt
arrive in canonical form, which is how messages are written and read
(`clientMessages_delivered`).

The server may do anything between two requests for chunks. A reader that is given
too few requests is pending, and so is a value whose references lead from content
to content too often.
-/

namespace PiWorkflows

open Fallible

/-- What a client gets of a JSON value that the server sends. -/
def received (value : Json) : Json :=
  normalizeJson value

/-- Why there is no value. -/
inductive Unread where
  | thrown (message : String)
  | pending
  deriving DecidableEq

/-- What `readContent` returns. -/
structure LoadedContent where
  mediaType : String
  content : Bytes
  deriving DecidableEq

/-! ## Reading a content -/

/-- The members of a receipt, as far as they are read. -/
structure ContentReceipt where
  bytes : Nat
  sha256 : String
  mediaType : String
  nextOffset : Nat
  complete : Bool
  data : String

/-- The receipt of a request for the bytes of a path from an offset on. -/
def contentReceipt? (contentPath : String) (offset : Nat) (receipt : Json) :
    Option ContentReceipt := do
  let path ← textMember receipt "path"
  let start ← naturalMember receipt "offset"
  let data ← textMember receipt "data"
  let mediaType ← textMember receipt "mediaType"
  let sha256 ← textMember receipt "sha256"
  let bytes ← naturalMember receipt "bytes"
  let nextOffset ← naturalMember receipt "nextOffset"
  let complete ← boolMember receipt "complete"
  if path = contentPath ∧ start = offset ∧ offset ≤ nextOffset then
    some ⟨bytes, sha256, mediaType, nextOffset, complete, data⟩
  else none

/-- The variables of the loop; the expected values are those of the first receipt. -/
structure ContentReader where
  offset : Nat := 0
  content : Bytes := []
  expected : Option (Nat × String × String) := none

namespace ContentReader

/-- One receipt, and whether it was the last. -/
def receive (contentPath : String) (reader : ContentReader) (receipt : Json) :
    Except String (ContentReader × Bool) := do
  let receipt ← orThrow "Workflow content receipt is invalid"
    (contentReceipt? contentPath reader.offset receipt)
  let identity := (receipt.bytes, receipt.sha256, receipt.mediaType)
  require (reader.expected.getD identity = identity)
    "Workflow content identity changed during transfer"
  let chunk := bytesOfBase64 receipt.data.toList
  require (reader.offset + chunk.length = receipt.nextOffset)
    "Workflow content chunk offset is invalid"
  pure (⟨receipt.nextOffset, reader.content ++ chunk, some identity⟩, receipt.complete)

variable (sha256 : Bytes → Vector UInt8 32)

/-- The checks behind the loop. -/
def finish (reader : ContentReader) : Except String LoadedContent := do
  let (bytes, digest, mediaType) ← orThrow "Workflow content is incomplete" reader.expected
  require (reader.content.length = bytes) "Workflow content is incomplete"
  require (String.ofList (hexDigest sha256 reader.content) = digest)
    "Workflow content digest does not match"
  pure ⟨mediaType, reader.content⟩

/-- The loop of `readContent`: the `i`-th request finds the server after `turns i`. -/
def readFrom (runId contentPath : String) (turns : Nat → List ViewAction) :
    Nat → Nat → ViewContents → ContentReader → Except Unread LoadedContent
  | 0, _, _, _ => .error .pending
  | requests + 1, i, view, reader =>
      let (answer, view) := (view.acts sha256 (turns i)).content runId contentPath reader.offset
      match answer with
      | .error message => .error (.thrown message)
      | .ok none => .error (.thrown "Workflow content not found")
      | .ok (some receipt) =>
          match reader.receive contentPath (received receipt) with
          | .error message => .error (.thrown message)
          | .ok (reader, true) => (reader.finish sha256).mapError .thrown
          | .ok (reader, false) => readFrom runId contentPath turns requests (i + 1) view reader

end ContentReader

/-- `readContent`. -/
def readContent (sha256 : Bytes → Vector UInt8 32) (view : ViewContents)
    (turns : Nat → List ViewAction) (requests : Nat) (runId contentPath : String) :
    Except Unread LoadedContent :=
  ContentReader.readFrom sha256 runId contentPath turns requests 0 view {}

/-! ## Putting contents in place of references -/

/-- `ContentReference`. -/
structure ContentReference where
  path : String
  mediaType : String
  bytes : Nat
  sha256 : String
  isOpaque : Bool

/-- `artifact.opaque === undefined || typeof artifact.opaque === "boolean"`. -/
def opaqueMember (artifact : Json) : Option Bool :=
  match artifact.member? "opaque" with
  | none => some false
  | some (.bool b) => some b
  | some _ => none

/-- `isContentReference`, of the members of an object. -/
def contentReference? (members : List (String × Json)) : Option ContentReference := do
  if soleKey members = some "$artifact" then
    let artifact ← members.lookup "$artifact"
    let path ← textMember artifact "path"
    let mediaType ← textMember artifact "mediaType"
    let bytes ← naturalMember artifact "bytes"
    let sha256 ← textMember artifact "sha256"
    let isOpaque ← opaqueMember artifact
    some ⟨path, mediaType, bytes, sha256, isOpaque⟩
  else none

section Hydrate

variable (sha256 : Bytes → Vector UInt8 32)

/-- The value that a loaded content holds, if it is the one that is referred to. -/
def decodeContent (reference : ContentReference) (loaded : LoadedContent) :
    Except Unread Json := do
  require (loaded.mediaType = reference.mediaType ∧ loaded.content.length = reference.bytes ∧
    String.ofList (hexDigest sha256 loaded.content) = reference.sha256)
    (.thrown "Workflow content reference does not match its content")
  let text := String.ofList (decodeUtf8 loaded.content)
  if loaded.mediaType = "application/json" then
    orThrow (.thrown "SyntaxError") (parseJson text)
  else pure (.str text)

/-- The content that takes the place of a reference. One that is not opaque is
hydrated `again`. -/
def followReference (read : String → Except Unread LoadedContent)
    (again : Json → Except Unread Json) (reference : ContentReference) : Except Unread Json := do
  let loaded ← read reference.path
  let decoded ← decodeContent sha256 reference loaded
  if reference.isOpaque then pure decoded else again decoded

mutual

/-- `hydrateContentValue`, by what reading each path gives: a path is read once. -/
def hydrateValue (read : String → Except Unread LoadedContent)
    (again : Json → Except Unread Json) : Json → Except Unread Json
  | .null => .ok .null
  | .bool b => .ok (.bool b)
  | .num n => .ok (.num n)
  | .str s => .ok (.str s)
  | .arr items => do
      let items ← hydrateItems read again items
      pure (.arr items)
  | .obj [] => .ok (.obj [])
  | .obj ((k, .obj inner) :: rest) =>
      if soleKey ((k, .obj inner) :: rest) = some "$escaped" then do
        let members ← hydrateMembers read again inner
        pure (.obj members)
      else
        match contentReference? ((k, .obj inner) :: rest) with
        | some reference => followReference sha256 read again reference
        | none => do
            let members ← hydrateMembers read again ((k, .obj inner) :: rest)
            pure (.obj members)
  | .obj ((k, x) :: rest) =>
      if soleKey ((k, x) :: rest) = some "$escaped" then .ok x
      else do
        let members ← hydrateMembers read again ((k, x) :: rest)
        pure (.obj members)

def hydrateItems (read : String → Except Unread LoadedContent)
    (again : Json → Except Unread Json) : List Json → Except Unread (List Json)
  | [] => .ok []
  | x :: xs => do
      let x ← hydrateValue read again x
      let xs ← hydrateItems read again xs
      pure (x :: xs)

def hydrateMembers (read : String → Except Unread LoadedContent)
    (again : Json → Except Unread Json) :
    List (String × Json) → Except Unread (List (String × Json))
  | [] => .ok []
  | (k, x) :: rest => do
      let x ← hydrateValue read again x
      let rest ← hydrateMembers read again rest
      pure ((k, x) :: rest)

end

/-- `hydrateContent`, with a bound on how often a content leads to another. -/
def hydrateContent (read : String → Except Unread LoadedContent) :
    Nat → Json → Except Unread Json
  | 0, value => hydrateValue sha256 read (fun _ => .error .pending) value
  | depth + 1, value => hydrateValue sha256 read (hydrateContent read depth) value

end Hydrate

end PiWorkflows
