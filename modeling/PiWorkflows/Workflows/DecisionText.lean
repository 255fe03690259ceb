import PiWorkflows.Js.Value

/-!
# The text of a human decision (`workflows/human-decision.ts`)

A decision request is named by the digest of its canonical text, and this module
has a canonical text of its own: names are sorted with `localeCompare`, the order
of the host's collation, which may call two different names equal. The sort is
stable, so such names stay in the order they had.
-/

namespace PiWorkflows

/-- The order of a host's collation: `before l r` is `l.localeCompare(r) <= 0`. -/
structure Collation where
  before : CodeUnits → CodeUnits → Bool
  total : ∀ l r, before l r = true ∨ before r l = true
  trans : ∀ l m r, before l m = true → before m r = true → before l r = true

namespace Collation

/-- One name does not come behind another. -/
def Le (c : Collation) (l r : CodeUnits) : Prop :=
  c.before l r = true

instance (c : Collation) : DecidableRel c.Le := fun l r =>
  inferInstanceAs (Decidable (c.before l r = true))

instance (c : Collation) : Std.Total c.Le := ⟨c.total⟩

instance (c : Collation) : IsTrans CodeUnits c.Le := ⟨c.trans⟩

/-- `Object.fromEntries(Object.entries(value).sort(...))`. -/
def collate {α : Type} (c : Collation) (members : List (CodeUnits × α)) : List (CodeUnits × α) :=
  fromEntries ((enumerated members).insertionSort fun e f => c.Le e.1 f.1)

end Collation

mutual

/-- `sortJson`. Only names are compared, so the children may be sorted before their parent is. -/
def sortJson (c : Collation) : JsValue → JsValue
  | .arr items => .arr (sortItems c items)
  | .obj _ members => .obj true (c.collate (sortMembers c members))
  | .undefined => .undefined
  | .null => .null
  | .bool b => .bool b
  | .num n => .num n
  | .negativeZero => .negativeZero
  | .notFinite => .notFinite
  | .str s => .str s
  | .bigint => .bigint
  | .function => .function
  | .symbol => .symbol

def sortItems (c : Collation) : List JsValue → List JsValue
  | [] => []
  | x :: xs => sortJson c x :: sortItems c xs

def sortMembers (c : Collation) : List (CodeUnits × JsValue) → List (CodeUnits × JsValue)
  | [] => []
  | (k, x) :: rest => (k, sortJson c x) :: sortMembers c rest

end

/-- `canonicalJson`, which has no text for a value that `JSON.stringify` has none for. -/
def collatedJson (c : Collation) (v : JsValue) : Except String (Option String) :=
  (sortJson c v).stringify

/-- `digest`, for a SHA-256 that gives its hexadecimal digits. -/
def collatedDigest (c : Collation) (sha256 : String → String) (v : JsValue) :
    Except String (Option String) :=
  (collatedJson c v).map fun text => text.map fun text => "sha256:" ++ sha256 text

end PiWorkflows
