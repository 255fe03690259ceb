import PiWorkflows.Workflows.JsonPatch

/-!
# JSON Patch as RFC 6902 has it

What the standard says, in its own terms and apart from the program: which text
denotes which location (RFC 6901), what a location holds, and what each operation
makes of a document. An object has no order of members here: a rule about one
speaks of what it holds under each name, and two objects that hold the same are
as good as each other.

Two points the standard leaves to its reader are fixed. The root of a document is
not removed, since nothing would be left; and a root that is moved onto itself
stays.
-/

namespace PiWorkflows

namespace Rfc6902

/-! ## Locations -/

/-- A reference token and the name it stands for: `~0` is a tilde, `~1` a slash,
and neither character stands unescaped. -/
inductive Token : List Char → List Char → Prop where
  | done : Token [] []
  | tilde {text name : List Char} : Token text name → Token ('~' :: '0' :: text) ('~' :: name)
  | slash {text name : List Char} : Token text name → Token ('~' :: '1' :: text) ('/' :: name)
  | plain {c : Char} {text name : List Char} (htilde : c ≠ '~') (hslash : c ≠ '/') :
      Token text name → Token (c :: text) (c :: name)

/-- A pointer and the names on its way: every token has a slash in front of it. -/
inductive Pointer : List Char → List String → Prop where
  | root : Pointer [] []
  | token {text name rest : List Char} {names : List String} :
      Token text name → Pointer rest names →
        Pointer ('/' :: text ++ rest) (String.ofList name :: names)

/-- What a document holds at a location. An index of an array is written in
decimal without leading zeros. -/
inductive At : Json → List String → Json → Prop where
  | here {document : Json} : At document [] document
  | item {items : List Json} {i : Nat} {item value : Json} {rest : List String} :
      items[i]? = some item → At item rest value → At (.arr items) (i.repr :: rest) value
  | member {members : List (String × Json)} {name : String} {member value : Json}
      {rest : List String} :
      members.lookup name = some member → At member rest value →
        At (.obj members) (name :: rest) value

/-- The object holds a value under one name, or nothing there, and under every
other name what it held. -/
def Holds (members : List (String × Json)) (name : String) (value : Option Json)
    (members' : List (String × Json)) : Prop :=
  ∀ k, members'.lookup k = if k = name then value else members.lookup k

/-- A change of the container a location ends in, seen from the document. -/
inductive ChangedAt (change : Json → String → Json → Prop) : Json → List String → Json → Prop where
  | here {container container' : Json} {key : String} :
      change container key container' → ChangedAt change container [key] container'
  | item {items : List Json} {i : Nat} {item item' : Json} {next : String} {rest : List String} :
      items[i]? = some item → ChangedAt change item (next :: rest) item' →
        ChangedAt change (.arr items) (i.repr :: next :: rest) (.arr (items.set i item'))
  | member {members members' : List (String × Json)} {name next : String} {member member' : Json}
      {rest : List String} :
      members.lookup name = some member → ChangedAt change member (next :: rest) member' →
        Holds members name (some member') members' →
          ChangedAt change (.obj members) (name :: next :: rest) (.obj members')

/-! ## Changes of a container -/

/-- A value put into a container: into an array before the item that has the
index, or behind all, which `-` says too; into an object under the name. -/
inductive Inserted (value : Json) : Json → String → Json → Prop where
  | item {items : List Json} {i : Nat} (h : i ≤ items.length) :
      Inserted value (.arr items) i.repr (.arr (items.take i ++ value :: items.drop i))
  | last {items : List Json} : Inserted value (.arr items) "-" (.arr (items ++ [value]))
  | member {members members' : List (String × Json)} {name : String} :
      Holds members name (some value) members' →
        Inserted value (.obj members) name (.obj members')

/-- What stands under a key taken out of its container. -/
inductive Deleted : Json → String → Json → Prop where
  | item {items : List Json} {i : Nat} (h : i < items.length) :
      Deleted (.arr items) i.repr (.arr (items.take i ++ items.drop (i + 1)))
  | member {members members' : List (String × Json)} {name : String} {value : Json} :
      members.lookup name = some value → Holds members name none members' →
        Deleted (.obj members) name (.obj members')

/-- `add`: at the root the value is the document. -/
inductive Added (value : Json) : Json → List String → Json → Prop where
  | root {document : Json} : Added value document [] value
  | below {document document' : Json} {path : List String} :
      ChangedAt (Inserted value) document path document' → Added value document path document'

/-- `remove`. -/
def Removed (document : Json) (path : List String) (document' : Json) : Prop :=
  ChangedAt Deleted document path document'

/-! ## Equality -/

/-- Equality of JSON values: arrays item by item, objects member by member. -/
inductive Equal : Json → Json → Prop where
  | scalar {value : Json} : Equal value value
  | array {items items' : List Json} (hlength : items.length = items'.length)
      (hitems : ∀ (i : Nat) (x y : Json), items[i]? = some x → items'[i]? = some y → Equal x y) :
      Equal (.arr items) (.arr items')
  | object {members members' : List (String × Json)}
      (hnames : ∀ k, (members.lookup k).isSome = (members'.lookup k).isSome)
      (hmembers : ∀ k x y, members.lookup k = some x → members'.lookup k = some y → Equal x y) :
      Equal (.obj members) (.obj members')

/-! ## Operations -/

/-- One operation turns a document into another. `replace` and `move` are, as the
standard puts it, a removal followed at once by an addition. -/
inductive Performs : Json → JsonPatchOperation → Json → Prop where
  | add {document document' value : Json} {pointer : String} {path : List String} :
      Pointer pointer.toList path → Added value document path document' →
        Performs document (.add pointer value) document'
  | remove {document document' : Json} {pointer : String} {path : List String} :
      Pointer pointer.toList path → Removed document path document' →
        Performs document (.remove pointer) document'
  | replaceRoot {document value : Json} {pointer : String} :
      Pointer pointer.toList [] → Performs document (.replace pointer value) value
  | replace {document between document' value : Json} {pointer : String} {path : List String} :
      Pointer pointer.toList path → Removed document path between →
        Added value between path document' → Performs document (.replace pointer value) document'
  | moveRoot {document : Json} {pointer source : String} :
      Pointer pointer.toList [] → Pointer source.toList [] →
        Performs document (.move pointer source) document
  | move {document between document' value : Json} {pointer source : String}
      {path from_ : List String} :
      Pointer pointer.toList path → Pointer source.toList from_ → At document from_ value →
        ¬ (from_ <+: path ∧ from_ ≠ path) → Removed document from_ between →
          Added value between path document' → Performs document (.move pointer source) document'
  | copy {document document' value : Json} {pointer source : String} {path from_ : List String} :
      Pointer pointer.toList path → Pointer source.toList from_ → At document from_ value →
        Added value document path document' → Performs document (.copy pointer source) document'
  | test {document value target : Json} {pointer : String} {path : List String} :
      Pointer pointer.toList path → At document path target → Equal target value →
        Performs document (.test pointer value) document

/-- A patch performs its operations one after the other, each on the document the
one before it made. -/
inductive Evaluates : Json → List JsonPatchOperation → Json → Prop where
  | done {document : Json} : Evaluates document [] document
  | step {document document' result : Json} {operation : JsonPatchOperation}
      {rest : List JsonPatchOperation} :
      Performs document operation document' → Evaluates document' rest result →
        Evaluates document (operation :: rest) result

end Rfc6902

end PiWorkflows
