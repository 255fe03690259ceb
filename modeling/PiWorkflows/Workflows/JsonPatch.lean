import PiWorkflows.Lib.Fallible
import PiWorkflows.Js.Member
import PiWorkflows.Js.Text

/-!
# JSON Patch on settings documents (`workflows/json-patch.ts`)

The source walks to the parent of a path and mutates it in place. Documents are
values here, so the walk puts each container it passed back together on the way
out (`editParent`); `child` and `putChild` are one step of it. The document and
every value a patch writes are cloned before use, so the source has no sharing
that this could lose.
-/

namespace PiWorkflows

open Fallible

/-! ## Limits -/

def maxJsonPatchOperations : Nat := 256
def maxJsonPatchBytes : Nat := 64 * 1024
def maxJsonPointerBytes : Nat := 1024
def maxWorkflowSettingsBytes : Nat := 256 * 1024

/-! ## Pointers -/

/-- One segment with its escapes undone, or nothing at a wrong escape. -/
def unescapeSegment : List Char → Option (List Char)
  | [] => some []
  | '~' :: '0' :: rest => (unescapeSegment rest).map ('~' :: ·)
  | '~' :: '1' :: rest => (unescapeSegment rest).map ('/' :: ·)
  | '~' :: _ => none
  | c :: rest => (unescapeSegment rest).map (c :: ·)

/-- `parseJsonPointer`. -/
def parseJsonPointer (pointer : String) : Except String (List String) :=
  if byteLength pointer > maxJsonPointerBytes then
    .error s!"JSON Pointer cannot exceed {maxJsonPointerBytes} bytes"
  else
    match pointer.toList with
    | [] => .ok []
    | '/' :: rest =>
        (rest.splitOn '/').mapM fun segment =>
          orThrow ("Invalid JSON Pointer escape in " ++ stringify (.str pointer))
            ((unescapeSegment segment).map String.ofList)
    | _ => .error ("Invalid JSON Pointer: " ++ stringify (.str pointer))

/-- `segment.replaceAll("~", "~0").replaceAll("/", "~1")`. -/
def encodeSegment (segment : String) : String :=
  String.ofList (segment.toList.flatMap fun c =>
    if c = '~' then ['~', '0'] else if c = '/' then ['~', '1'] else [c])

/-- `encodeJsonPointer`. -/
def encodeJsonPointer (segments : List String) : String :=
  if segments = [] then "" else "/" ++ joinText '/' (segments.map encodeSegment)

/-- `missingPath`, the text of the error. -/
def missingPath (path : String) : String :=
  "JSON Patch path does not exist: " ++ stringify (.str path)

/-- `parseArrayIndex`: an index past the end comes out as one past the length. -/
def parseArrayIndex (segment : String) (length : Nat) (allowEnd : Bool) : Except String Nat :=
  if allowEnd = true ∧ segment = "-" then .ok length
  else
    match arrayIndexName segment with
    | none => .error ("Invalid JSON Patch array index: " ++ stringify (.str segment))
    | some index =>
        if index > length ∨ (allowEnd = false ∧ index = length) then .ok (length + 1)
        else .ok index

/-! ## One step into a document -/

/-- The child of a container under a segment. -/
def child (missing : String) (parent : Json) (segment : String) : Except String Json :=
  match parent with
  | .arr items => do
      let index ← parseArrayIndex segment items.length false
      orThrow missing items[index]?
  | .obj members => orThrow missing (members.lookup segment)
  | _ => .error missing

/-- The container with the child under a segment exchanged for another. -/
def putChild (parent : Json) (segment : String) (value : Json) : Json :=
  match parent with
  | .arr items =>
      match arrayIndexName segment with
      | some index => .arr (items.set index value)
      | none => parent
  | .obj members => .obj (Assoc.setKey segment value members)
  | _ => parent

/-- `resolveParent`: the container a path ends in, and its key there. -/
def resolveParent (missing : String) : Json → List String → Except String (Json × String)
  | _, [] => .error missing
  | parent, [key] => .ok (parent, key)
  | parent, segment :: next :: rest => do
      let inner ← child missing parent segment
      resolveParent missing inner (next :: rest)

/-- `resolveParent` and a change of the container it finds. -/
def editParent {α : Type} (missing : String) (edit : Json → String → Except String (Json × α)) :
    Json → List String → Except String (Json × α)
  | _, [] => .error missing
  | parent, [key] => edit parent key
  | parent, segment :: next :: rest => do
      let inner ← child missing parent segment
      let (inner, result) ← editParent missing edit inner (next :: rest)
      pure (putChild parent segment inner, result)

/-! ## Reads -/

/-- `jsonPointerTarget` on the segments of a pointer: `none` where the target
does not exist. A segment that cannot be an array index is an error still. -/
def targetAt : Json → List String → Except String (Option Json)
  | document, [] => .ok (some document)
  | .arr items, segment :: rest => do
      let index ← parseArrayIndex segment items.length false
      match items[index]? with
      | some item => targetAt item rest
      | none => pure none
  | .obj members, segment :: rest =>
      match members.lookup segment with
      | some member => targetAt member rest
      | none => .ok none
  | _, _ :: _ => .ok none

/-- `jsonPointerTarget`. -/
def jsonPointerTarget (document : Json) (pointer : String) : Except String (Option Json) := do
  let segments ← parseJsonPointer pointer
  targetAt document segments

/-- `requireTarget`. -/
def requireTarget (document : Json) (path : List String) (pointer : String) :
    Except String Json :=
  match path with
  | [] => .ok document
  | _ => do
      let (parent, key) ← resolveParent (missingPath (encodeJsonPointer path)) document path
      child (missingPath pointer) parent key

/-! ## Writes -/

/-- `addValue` at the parent. -/
def addChild (missing : String) (value : Json) (replaceOnly : Bool) (parent : Json)
    (key : String) : Except String (Json × Unit) :=
  match parent with
  | .arr items =>
      if replaceOnly then do
        let index ← parseArrayIndex key items.length false
        require (index < items.length) missing
        pure (.arr (items.set index value), ())
      else do
        let index ← parseArrayIndex key items.length true
        require (index ≤ items.length) missing
        pure (.arr (items.insertIdx index value), ())
  | .obj members => do
      require (replaceOnly = true → (members.lookup key).isSome = true) missing
      pure (.obj (Assoc.setKey key value members), ())
  | _ => .error missing

/-- `addValue`. -/
def addValue (document : Json) (path : List String) (value : Json) (replaceOnly : Bool) :
    Except String Json :=
  match path with
  | [] => .ok value
  | _ => do
      let missing := missingPath (encodeJsonPointer path)
      let (document, _) ← editParent missing (addChild missing value replaceOnly) document path
      pure document

/-- `removeValue` at the parent. -/
def removeChild (missing : String) (parent : Json) (key : String) :
    Except String (Json × Json) :=
  match parent with
  | .arr items => do
      let index ← parseArrayIndex key items.length false
      let value ← orThrow missing items[index]?
      pure (.arr (items.eraseIdx index), value)
  | .obj members => do
      let value ← orThrow missing (members.lookup key)
      pure (.obj (Assoc.eraseKey key members), value)
  | _ => .error missing

/-- `removeValue`: the document without the value, and the value. -/
def removeValue (document : Json) (path : List String) : Except String (Json × Json) :=
  match path with
  | [] => .error "JSON Patch remove cannot remove the document root"
  | _ =>
      let missing := missingPath (encodeJsonPointer path)
      editParent missing (removeChild missing) document path

/-! ## Operations -/

/-- `JsonPatchOperation`; `source` is the field `from`. -/
inductive JsonPatchOperation where
  | add (path : String) (value : Json)
  | remove (path : String)
  | replace (path : String) (value : Json)
  | move (path source : String)
  | copy (path source : String)
  | test (path : String) (value : Json)
  deriving DecidableEq

def JsonPatchOperation.path : JsonPatchOperation → String
  | .add path _ | .remove path | .replace path _ | .move path _ | .copy path _
  | .test path _ => path

/-- `case "move"` before the write: the document without the source, and the
value taken out. -/
def takeMoved (document : Json) (path source : List String) : Except String (Json × Json) :=
  if source = [] then
    .error "JSON Patch move cannot move the document root into a child path"
  else if source <+: path then
    .error "JSON Patch move destination cannot be inside its source"
  else removeValue document source

/-- `applyJsonPatchOperation`. -/
def applyJsonPatchOperation (document : Json) (operation : JsonPatchOperation) :
    Except String Json := do
  let path ← parseJsonPointer operation.path
  match operation with
  | .add _ value => addValue document path value false
  | .remove _ => do
      let (document, _) ← removeValue document path
      pure document
  | .replace pointer value =>
      if path = [] then pure value
      else do
        let _ ← requireTarget document path pointer
        addValue document path value true
  | .copy _ source => do
      let from_ ← parseJsonPointer source
      let value ← requireTarget document from_ source
      addValue document path value false
  | .move _ source => do
      let from_ ← parseJsonPointer source
      if from_ = path then pure document
      else do
        let (removed, value) ← takeMoved document path from_
        addValue removed path value false
  | .test pointer value => do
      let target ← requireTarget document path pointer
      require (canonicalJson target = canonicalJson value)
        ("JSON Patch test failed at " ++ stringify (.str pointer))
      pure document

/-! ## Patches -/

/-- `assertExactFields`. -/
def assertExactFields (members : List (String × Json)) (allowed : List String) (index : Nat) :
    Except String PUnit :=
  match members.find? fun member => member.1 ∉ allowed with
  | none => .ok ()
  | some unknown =>
      .error (s!"JSON Patch operation {index + 1} has unknown field " ++ stringify (.str unknown.1))

/-- `validateOperation`. -/
def validateOperation (value : Json) (index : Nat) : Except String JsonPatchOperation :=
  match value with
  | .obj members =>
      match members.lookup "op", members.lookup "path" with
      | some (.str op), some (.str path) => do
          let _ ← parseJsonPointer path
          if op = "add" ∨ op = "replace" ∨ op = "test" then
            assertExactFields members ["op", "path", "value"] index
            let value ← orThrow s!"JSON Patch {op} operation {index + 1} requires value"
              (members.lookup "value")
            if op = "add" then pure (.add path value)
            else if op = "replace" then pure (.replace path value)
            else pure (.test path value)
          else if op = "remove" then do
            assertExactFields members ["op", "path"] index
            pure (.remove path)
          else if op = "copy" ∨ op = "move" then
            assertExactFields members ["op", "path", "from"] index
            match members.lookup "from" with
            | some (.str source) => do
                let _ ← parseJsonPointer source
                if op = "copy" then pure (.copy path source) else pure (.move path source)
            | _ => .error s!"JSON Patch {op} operation {index + 1} requires string from"
          else .error ("Unknown JSON Patch operation " ++ stringify (.str op))
      | _, _ =>
          .error s!"JSON Patch operation {index + 1} must contain string op and path fields"
  | _ => .error s!"JSON Patch operation {index + 1} must contain string op and path fields"

/-- A validated operation as the plain object it is. -/
def JsonPatchOperation.json : JsonPatchOperation → Json
  | .add path value => .obj [("op", .str "add"), ("path", .str path), ("value", value)]
  | .remove path => .obj [("op", .str "remove"), ("path", .str path)]
  | .replace path value => .obj [("op", .str "replace"), ("path", .str path), ("value", value)]
  | .move path source => .obj [("op", .str "move"), ("path", .str path), ("from", .str source)]
  | .copy path source => .obj [("op", .str "copy"), ("path", .str path), ("from", .str source)]
  | .test path value => .obj [("op", .str "test"), ("path", .str path), ("value", value)]

/-- A validated patch as the array it is. -/
def patchJson (patch : List JsonPatchOperation) : Json :=
  .arr (patch.map JsonPatchOperation.json)

/-- `validateJsonPatch`. -/
def validateJsonPatch (value : Json) : Except String (List JsonPatchOperation) :=
  match value with
  | .arr operations => do
      require (operations.length ≤ maxJsonPatchOperations)
        s!"JSON Patch cannot contain more than {maxJsonPatchOperations} operations"
      let patch ← (operations.zipIdx).mapM fun (operation, index) =>
        validateOperation operation index
      require (byteLength (canonicalJson (patchJson patch)) ≤ maxJsonPatchBytes)
        s!"JSON Patch cannot exceed {maxJsonPatchBytes} bytes"
      pure patch
  | _ => .error "JSON Patch must be an array"

/-- `applyJsonPatch`. -/
def applyJsonPatch (document : Json) (value : Json) : Except String Json := do
  let patch ← validateJsonPatch value
  let current ← patch.foldlM applyJsonPatchOperation document
  require (byteLength (canonicalJson current) ≤ maxWorkflowSettingsBytes)
    s!"JSON Patch result cannot exceed {maxWorkflowSettingsBytes} bytes"
  pure current

end PiWorkflows
