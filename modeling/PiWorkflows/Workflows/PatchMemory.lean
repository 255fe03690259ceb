import PiWorkflows.Workflows.JsonPatch

/-!
# JSON Patch as it runs (`workflows/json-patch.ts`)

The program's own text writes into arrays and objects where they stand, and any
number of variables may refer to one of them. Here an array or object is a cell
of a memory, a variable holds a scalar or the address of a cell, and the functions
of the source do to the memory what the source does to its objects. What a call
has written stays written when it throws.

The functions over values (`PiWorkflows.applyJsonPatch` and the ones it calls) say
what comes out; the ones here say what happens to everything that was there.
-/

namespace PiWorkflows.InPlace

open Fallible

/-! ## Memory -/

/-- A value that is no object. -/
inductive Scalar where
  | null
  | bool (b : Bool)
  | num (n : JsNumber)
  | str (s : String)
  deriving DecidableEq

def Scalar.json : Scalar → Json
  | .null => .null
  | .bool b => .bool b
  | .num n => .num n
  | .str s => .str s

/-- What a variable, an item or a member holds. -/
inductive Slot where
  | scalar (s : Scalar)
  | ref (address : Nat)
  deriving DecidableEq

/-- An array or a plain object. -/
inductive Cell where
  | arr (items : List Slot)
  | obj (members : List (String × Slot))
  deriving DecidableEq

/-- The cells by address; a new one gets the next address. -/
abbrev Memory := List Cell

/-- A computation over the memory that may throw. -/
abbrev Act := EStateM String Memory

def throwing {α : Type} : Except String α → Act α
  | .ok a => pure a
  | .error e => throw e

/-- Every address that is held has a cell. -/
def load (address : Nat) : Act Cell := fun memory =>
  .ok (memory[address]?.getD (.obj [])) memory

def store (address : Nat) (cell : Cell) : Act Unit := fun memory =>
  .ok () (memory.set address cell)

def allocate (cell : Cell) : Act Slot := fun memory =>
  .ok (.ref memory.length) (memory ++ [cell])

/-! ## Copies -/

/-- Recursion over a value ends here when the value is nested more deeply than
the stack is high. -/
def stackOverflow : String := "Maximum call stack size exceeded"

/-- `cloneJson` on a stack with room for so many calls. -/
def cloneJson : Nat → Slot → Act Slot
  | _, .scalar s => pure (.scalar s)
  | 0, .ref _ => throw stackOverflow
  | depth + 1, .ref address => do
      match ← load address with
      | .arr items => do
          let items ← items.mapM (cloneJson depth)
          allocate (.arr items)
      | .obj members => do
          let members ← members.mapM fun member => do
            let value ← cloneJson depth member.2
            pure (member.1, value)
          allocate (.obj members)

/-- The value a slot holds, read cell by cell. -/
def readJson : Nat → Memory → Slot → Option Json
  | _, _, .scalar s => some s.json
  | 0, _, .ref _ => none
  | depth + 1, memory, .ref address =>
      match memory[address]? with
      | some (.arr items) => (items.mapM (readJson depth memory)).map .arr
      | some (.obj members) =>
          (members.mapM fun member =>
            (readJson depth memory member.2).map fun value => (member.1, value)).map .obj
      | none => none

def valueOf (depth : Nat) (slot : Slot) : Act Json := fun memory =>
  match readJson depth memory slot with
  | some value => .ok value memory
  | none => .error stackOverflow memory

mutual

/-- A clone of a value that a validated operation keeps to itself: nothing refers
to that value but the operation, so it needs no place in the memory. -/
def copyOf : Json → Act Slot
  | .null => pure (.scalar .null)
  | .bool b => pure (.scalar (.bool b))
  | .num n => pure (.scalar (.num n))
  | .str s => pure (.scalar (.str s))
  | .arr items => do
      let items ← copyItems items
      allocate (.arr items)
  | .obj members => do
      let members ← copyMembers members
      allocate (.obj members)

def copyItems : List Json → Act (List Slot)
  | [] => pure []
  | item :: rest => do
      let slot ← copyOf item
      let slots ← copyItems rest
      pure (slot :: slots)

def copyMembers : List (String × Json) → Act (List (String × Slot))
  | [] => pure []
  | (name, member) :: rest => do
      let slot ← copyOf member
      let slots ← copyMembers rest
      pure ((name, slot) :: slots)

end

/-! ## Walks -/

/-- One step of the walks of `resolveParent` and `requireTarget`. -/
def child (missing : String) (segment : String) : Slot → Act Slot
  | .scalar _ => throw missing
  | .ref address => do
      match ← load address with
      | .arr items => throwing do
          let index ← parseArrayIndex segment items.length false
          orThrow missing items[index]?
      | .obj members => throwing (orThrow missing (members.lookup segment))

/-- `resolveParent`: the parent of a location and the key there. -/
def resolveParent (missing : String) : Slot → List String → Act (Slot × String)
  | _, [] => throw missing
  | parent, [key] => pure (parent, key)
  | parent, segment :: next :: rest => do
      let inner ← child missing segment parent
      resolveParent missing inner (next :: rest)

/-- `requireTarget`. -/
def requireTarget (document : Slot) (path : List String) (pointer : String) : Act Slot :=
  match path with
  | [] => pure document
  | _ => do
      let (parent, key) ← resolveParent (missingPath (encodeJsonPointer path)) document path
      child (missingPath pointer) key parent

/-! ## Writes -/

/-- `addValue` at the parent, which is written in place. -/
def addChild (missing : String) (value : Slot) (replaceOnly : Bool) (parent : Slot) (key : String) :
    Act Unit :=
  match parent with
  | .scalar _ => throw missing
  | .ref address => do
      match ← load address with
      | .arr items =>
          if replaceOnly then do
            let index ← throwing (parseArrayIndex key items.length false)
            throwing (require (index < items.length) missing)
            store address (.arr (items.set index value))
          else do
            let index ← throwing (parseArrayIndex key items.length true)
            throwing (require (index ≤ items.length) missing)
            store address (.arr (items.insertIdx index value))
      | .obj members => do
          throwing (require (replaceOnly = true → (members.lookup key).isSome = true) missing)
          store address (.obj (Assoc.setKey key value members))

/-- `addValue`. -/
def addValue (document : Slot) (path : List String) (value : Slot) (replaceOnly : Bool) :
    Act Slot :=
  match path with
  | [] => pure value
  | _ => do
      let missing := missingPath (encodeJsonPointer path)
      let (parent, key) ← resolveParent missing document path
      addChild missing value replaceOnly parent key
      pure document

/-- `removeValue` at the parent. -/
def removeChild (missing : String) (parent : Slot) (key : String) : Act Slot :=
  match parent with
  | .scalar _ => throw missing
  | .ref address => do
      match ← load address with
      | .arr items => do
          let index ← throwing (parseArrayIndex key items.length false)
          let value ← throwing (orThrow missing items[index]?)
          store address (.arr (items.eraseIdx index))
          pure value
      | .obj members => do
          let value ← throwing (orThrow missing (members.lookup key))
          store address (.obj (Assoc.eraseKey key members))
          pure value

/-- `removeValue`. -/
def removeValue (document : Slot) (path : List String) : Act (Slot × Slot) :=
  match path with
  | [] => throw "JSON Patch remove cannot remove the document root"
  | _ => do
      let missing := missingPath (encodeJsonPointer path)
      let (parent, key) ← resolveParent missing document path
      let value ← removeChild missing parent key
      pure (document, value)

/-! ## Operations -/

/-- `case "move"` before the write. -/
def takeMoved (document : Slot) (path source : List String) : Act (Slot × Slot) :=
  if source = [] then throw "JSON Patch move cannot move the document root into a child path"
  else if source <+: path then throw "JSON Patch move destination cannot be inside its source"
  else removeValue document source

/-- `applyJsonPatchOperation`. -/
def applyJsonPatchOperation (depth : Nat) (document : Slot) (operation : JsonPatchOperation) :
    Act Slot := do
  let path ← throwing (parseJsonPointer operation.path)
  match operation with
  | .add _ value => do
      let value ← copyOf value
      addValue document path value false
  | .remove _ => do
      let (document, _) ← removeValue document path
      pure document
  | .replace pointer value =>
      if path = [] then copyOf value
      else do
        let _ ← requireTarget document path pointer
        let value ← copyOf value
        addValue document path value true
  | .copy _ source => do
      let from_ ← throwing (parseJsonPointer source)
      let target ← requireTarget document from_ source
      let value ← cloneJson depth target
      addValue document path value false
  | .move _ source => do
      let from_ ← throwing (parseJsonPointer source)
      if from_ = path then pure document
      else do
        let (removed, value) ← takeMoved document path from_
        addValue removed path value false
  | .test pointer value => do
      let target ← requireTarget document path pointer
      let found ← valueOf depth target
      throwing (require (canonicalJson found = canonicalJson value)
        ("JSON Patch test failed at " ++ stringify (.str pointer)))
      pure document

/-- `validateJsonPatch`. -/
def validateJsonPatch (depth : Nat) (value : Slot) : Act (List JsonPatchOperation) := do
  let value ← valueOf depth value
  throwing (PiWorkflows.validateJsonPatch value)

/-- `applyJsonPatch`. -/
def applyJsonPatch (depth : Nat) (document value : Slot) : Act Slot := do
  let patch ← validateJsonPatch depth value
  let current ← cloneJson depth document
  let current ← patch.foldlM (applyJsonPatchOperation depth) current
  let result ← valueOf depth current
  throwing (require (byteLength (canonicalJson result) ≤ maxWorkflowSettingsBytes)
    s!"JSON Patch result cannot exceed {maxWorkflowSettingsBytes} bytes")
  pure current

end PiWorkflows.InPlace
