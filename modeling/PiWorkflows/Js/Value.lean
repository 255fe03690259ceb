import Mathlib.Data.List.Sort
import PiWorkflows.Js.Parse
import PiWorkflows.Js.Utf16

/-!
# Values with their code units and their order of members (`state/json.ts`)

`Json` keeps a string as text and an object in creation order, which is enough
where values are only compared. What is in doubt here is the comparison itself,
so nothing is left out: a string is the code units it has, half surrogate pairs
included, an object enumerates array indices before its other members, and a
value may be one that JSON does not have.

A `JsTree` is what JSON text can say. `JSON.stringify` prints one, `JSON.parse`
reads one, and `normalizeJson` makes one from a value or refuses it.
-/

namespace PiWorkflows

/-- The code units of a text. -/
def units (text : String) : CodeUnits :=
  encodeUtf16 text.toList

theorem units_injective : Function.Injective units := fun _ _ h =>
  String.toList_injective (encodeUtf16_injective h)

/-- Names are compared by their code units. -/
instance : BEq CodeUnits := instBEqOfDecidableEq

instance : LawfulBEq CodeUnits := inferInstance

/-- JSON data (`JsonValue`). An object lists its members as it enumerates them. -/
inductive JsTree where
  | null
  | bool (b : Bool)
  | num (n : JsNumber)
  | str (s : CodeUnits)
  | arr (items : List JsTree)
  | obj (members : List (CodeUnits × JsTree))

/-- A JavaScript value. `plain` tells an object with the prototype of a literal, or with none,
from an instance of a class. -/
inductive JsValue where
  | undefined
  | null
  | bool (b : Bool)
  | num (n : JsNumber)
  | negativeZero
  | notFinite
  | str (s : CodeUnits)
  | bigint
  | function
  | symbol
  | arr (items : List JsValue)
  | obj (plain : Bool) (members : List (CodeUnits × JsValue))

mutual

/-- JSON data as a value. -/
def JsValue.ofTree : JsTree → JsValue
  | .null => .null
  | .bool b => .bool b
  | .num n => .num n
  | .str s => .str s
  | .arr items => .arr (ofTreeItems items)
  | .obj members => .obj true (ofTreeMembers members)

def ofTreeItems : List JsTree → List JsValue
  | [] => []
  | x :: xs => JsValue.ofTree x :: ofTreeItems xs

def ofTreeMembers : List (CodeUnits × JsTree) → List (CodeUnits × JsValue)
  | [] => []
  | (k, x) :: rest => (k, JsValue.ofTree x) :: ofTreeMembers rest

end

/-! ## The order of members -/

/-- The array index that a member name spells. -/
def arrayIndex (key : CodeUnits) : Option Nat :=
  let n := key.foldl (fun n u => 10 * n + (u.toNat - 0x30)) 0
  if key = units n.repr ∧ n < 4294967295 then some n else none

/-- `Object.entries`: array indices come first and in ascending order, the other members in
the order in which they were made. -/
def enumerated {α : Type} (members : List (CodeUnits × α)) : List (CodeUnits × α) :=
  (members.filter fun e => (arrayIndex e.1).isSome).insertionSort
      (fun e f => (arrayIndex e.1).getD 0 ≤ (arrayIndex f.1).getD 0) ++
    members.filter fun e => (arrayIndex e.1).isNone

/-- The object that gets these members one after another (`Object.fromEntries`). -/
def fromEntries {α : Type} (entries : List (CodeUnits × α)) : List (CodeUnits × α) :=
  enumerated (entries.foldl (fun object e => Assoc.setKey e.1 e.2 object) [])

/-- `Object.keys(input).sort()` goes by code units. -/
def unitRank (key : CodeUnits) : List Nat :=
  key.map UInt16.toNat

/-! ## Printing -/

/-- Four lower-case hexadecimal digits. -/
def hexUnit (n : Nat) : List Char :=
  [hexDigit (n / 4096 % 16), hexDigit (n / 256 % 16), hexDigit (n / 16 % 16), hexDigit (n % 16)]

/-- A code unit that is in no surrogate pair. -/
def quoteUnit (u : UInt16) : List Char :=
  if isLeadSurrogate u || isTrailSurrogate u then '\\' :: 'u' :: hexUnit u.toNat
  else escapeChar (unitChar u)

/-- The inside of a string literal (`QuoteJSONString`). -/
def quoteUnits : CodeUnits → List Char
  | [] => []
  | [u] => quoteUnit u
  | u :: v :: rest =>
      if isLeadSurrogate u && isTrailSurrogate v then pairChar u v :: quoteUnits rest
      else quoteUnit u ++ quoteUnits (v :: rest)

/-- A string literal. -/
def literal (s : CodeUnits) : List Char :=
  '"' :: (quoteUnits s ++ ['"'])

mutual

/-- The characters that `JSON.stringify` writes for JSON data. -/
def JsTree.chars : JsTree → List Char
  | .null => ['n', 'u', 'l', 'l']
  | .bool true => ['t', 'r', 'u', 'e']
  | .bool false => ['f', 'a', 'l', 's', 'e']
  | .num n => n.text.toList
  | .str s => literal s
  | .arr items => '[' :: (itemsChars items ++ [']'])
  | .obj members => '\x7b' :: (membersChars members ++ ['\x7d'])

def itemsChars : List JsTree → List Char
  | [] => []
  | [x] => x.chars
  | x :: y :: rest => x.chars ++ ',' :: itemsChars (y :: rest)

def membersChars : List (CodeUnits × JsTree) → List Char
  | [] => []
  | [(k, x)] => literal k ++ ':' :: x.chars
  | (k, x) :: e :: rest => literal k ++ ':' :: (x.chars ++ ',' :: membersChars (e :: rest))

end

/-- `JSON.stringify` of JSON data. -/
def JsTree.text (t : JsTree) : String :=
  String.ofList t.chars

mutual

/-- What `JSON.stringify` writes of a value: nothing for some, and in an array `null` for these. -/
def serialized : JsValue → Except String (Option JsTree)
  | .undefined | .function | .symbol => .ok none
  | .bigint => .error "Do not know how to serialize a BigInt"
  | .null | .notFinite => .ok (some .null)
  | .bool b => .ok (some (.bool b))
  | .num n => .ok (some (.num n))
  | .negativeZero => .ok (some (.num (.ofNat 0)))
  | .str s => .ok (some (.str s))
  | .arr items => (serializedItems items).map fun items => some (.arr items)
  | .obj _ members => (serializedMembers members).map fun members => some (.obj members)

def serializedItems : List JsValue → Except String (List JsTree)
  | [] => .ok []
  | x :: xs => do
      let y ← serialized x
      let ys ← serializedItems xs
      .ok (y.getD .null :: ys)

def serializedMembers : List (CodeUnits × JsValue) → Except String (List (CodeUnits × JsTree))
  | [] => .ok []
  | (k, x) :: rest => do
      let y ← serialized x
      let ys ← serializedMembers rest
      .ok ((y.map fun y => (k, y)).toList ++ ys)

end

/-- `JSON.stringify`, which has no text for some values. -/
def JsValue.stringify (v : JsValue) : Except String (Option String) :=
  (serialized v).map fun t => t.map JsTree.text

/-! ## The canonical form -/

/-- The members that have a value, in order, unless one of them was refused. -/
def collect : List (CodeUnits × Except String (Option JsTree)) →
    Except String (List (CodeUnits × JsTree))
  | [] => .ok []
  | (k, x) :: rest => do
      let y ← x
      let ys ← collect rest
      .ok ((y.map fun y => (k, y)).toList ++ ys)

mutual

/-- `normalizeJson`. -/
def JsValue.normalizeJson : JsValue → Except String JsTree
  | .null => .ok .null
  | .str s => .ok (.str s)
  | .bool b => .ok (.bool b)
  | .num n => .ok (.num n)
  | .negativeZero => .ok (.num (.ofNat 0))
  | .notFinite => .error "JSON numbers must be finite"
  | .arr items => (normalizedItems items).map .arr
  | .obj plain members =>
      if plain then
        (collect (normalizedMembers members)).map fun members => .obj (fromEntries members)
      else .error "Only plain objects can be stored as canonical JSON"
  | .undefined => .error "Unsupported JSON value type: undefined"
  | .bigint => .error "Unsupported JSON value type: bigint"
  | .function => .error "Unsupported JSON value type: function"
  | .symbol => .error "Unsupported JSON value type: symbol"

def normalizedItems : List JsValue → Except String (List JsTree)
  | [] => .ok []
  | x :: xs => do
      let y ← x.normalizeJson
      let ys ← normalizedItems xs
      .ok (y :: ys)

/-- The members under their sorted names. A member that is `undefined` is left out. -/
def normalizedMembers :
    List (CodeUnits × JsValue) → List (CodeUnits × Except String (Option JsTree))
  | [] => []
  | (k, x) :: rest =>
      Assoc.insertMember unitRank k
        (match x with
          | .undefined => .ok none
          | x => x.normalizeJson.map some)
        (normalizedMembers rest)

end

/-- `canonicalJson`. -/
def JsValue.canonicalJson (v : JsValue) : Except String String :=
  v.normalizeJson.map JsTree.text

/-! ## Reading -/

/-- The code unit of an escape, behind the backslash. -/
def readEscapedUnit : List Char → Option (UInt16 × List Char)
  | '"' :: rest => some (0x22, rest)
  | '\\' :: rest => some (0x5C, rest)
  | '/' :: rest => some (0x2F, rest)
  | 'b' :: rest => some (8, rest)
  | 'f' :: rest => some (12, rest)
  | 'n' :: rest => some (10, rest)
  | 'r' :: rest => some (13, rest)
  | 't' :: rest => some (9, rest)
  | 'u' :: rest => (readUnit rest).map fun r => (UInt16.ofNat r.1, r.2)
  | _ => none

/-- The code units of a string literal, behind its opening quote. -/
def readUnits : Nat → List Char → Option (CodeUnits × List Char)
  | 0, _ => none
  | _ + 1, [] => none
  | fuel + 1, c :: text =>
      if c = '"' then some ([], text)
      else if c = '\\' then do
        let (u, rest) ← readEscapedUnit text
        let (us, rest) ← readUnits fuel rest
        some (u :: us, rest)
      else if c.toNat < 0x20 then none
      else do
        let (us, rest) ← readUnits fuel text
        some (encodeChar c ++ us, rest)

def readNumeral (text : List Char) : Option (JsTree × List Char) :=
  if h : isNumeral (String.ofList (text.takeWhile isNumeralChar)) = true then
    some (.num ⟨String.ofList (text.takeWhile isNumeralChar), h⟩, text.dropWhile isNumeralChar)
  else none

mutual

/-- One value and the text behind it. -/
def readTree : Nat → List Char → Option (JsTree × List Char)
  | 0, _ => none
  | fuel + 1, text =>
      match skipSpace text with
      | 'n' :: 'u' :: 'l' :: 'l' :: rest => some (.null, rest)
      | 't' :: 'r' :: 'u' :: 'e' :: rest => some (.bool true, rest)
      | 'f' :: 'a' :: 'l' :: 's' :: 'e' :: rest => some (.bool false, rest)
      | '"' :: rest => do
          let (s, rest) ← readUnits fuel rest
          some (.str s, rest)
      | '[' :: rest =>
          match skipSpace rest with
          | ']' :: rest => some (.arr [], rest)
          | rest => do
              let (items, rest) ← readTreeItems fuel rest
              some (.arr items, rest)
      | '\x7b' :: rest =>
          match skipSpace rest with
          | '\x7d' :: rest => some (.obj [], rest)
          | rest => do
              let (members, rest) ← readTreeMembers fuel rest
              some (.obj (fromEntries members), rest)
      | text => readNumeral text

/-- The items of an array that has some, and the text behind its bracket. -/
def readTreeItems : Nat → List Char → Option (List JsTree × List Char)
  | 0, _ => none
  | fuel + 1, text => do
      let (x, rest) ← readTree fuel text
      match skipSpace rest with
      | ',' :: rest => do
          let (xs, rest) ← readTreeItems fuel rest
          some (x :: xs, rest)
      | ']' :: rest => some ([x], rest)
      | _ => none

/-- The members of an object that has some, and the text behind its brace. -/
def readTreeMembers : Nat → List Char → Option (List (CodeUnits × JsTree) × List Char)
  | 0, _ => none
  | fuel + 1, text =>
      match skipSpace text with
      | '"' :: rest => do
          let (k, rest) ← readUnits fuel rest
          match skipSpace rest with
          | ':' :: rest => do
              let (x, rest) ← readTree fuel rest
              match skipSpace rest with
              | ',' :: rest => do
                  let (members, rest) ← readTreeMembers fuel rest
                  some ((k, x) :: members, rest)
              | '\x7d' :: rest => some ([(k, x)], rest)
              | _ => none
          | _ => none
      | _ => none

end

/-- `JSON.parse`. -/
def JsTree.parse (text : String) : Option JsTree := do
  let (v, rest) ← readTree (text.toList.length + 1) text.toList
  if skipSpace rest = [] then some v else none

end PiWorkflows
