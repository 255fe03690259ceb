import PiWorkflows.Js.Json

/-!
# Reading JSON text (`JSON.parse`, `parseJson`)

A recursive descent over the characters of a text. Every function returns the
value it has read and the text behind it, and takes fuel for the nesting and the
length of what it reads, which the length of the whole text bounds.

A numeral is kept as it stands, since a number is carried by its printed text;
the texts the program parses were printed by `JSON.stringify`. A member that is
named twice has the last value, at the place of the first, as in JavaScript.
-/

namespace PiWorkflows

/-- What may stand between the tokens of JSON. -/
def isJsonSpace (c : Char) : Bool :=
  c == ' ' || c == '\t' || c == '\n' || c == '\r'

def skipSpace (text : List Char) : List Char :=
  text.dropWhile isJsonSpace

/-- The value of a hexadecimal digit. -/
def readHexDigit (c : Char) : Option Nat :=
  if c.isDigit then some (c.toNat - 0x30)
  else if 'a' ≤ c ∧ c ≤ 'f' then some (c.toNat - 0x57)
  else if 'A' ≤ c ∧ c ≤ 'F' then some (c.toNat - 0x37)
  else none

theorem readHexDigit_hexDigit {n : Nat} (h : n < 16) : readHexDigit (hexDigit n) = some n := by
  revert h
  revert n
  decide

/-- The code unit that four hexadecimal digits name. -/
def readUnit : List Char → Option (Nat × List Char)
  | a :: b :: c :: d :: rest => do
      let a ← readHexDigit a
      let b ← readHexDigit b
      let c ← readHexDigit c
      let d ← readHexDigit d
      some (((a * 16 + b) * 16 + c) * 16 + d, rest)
  | _ => none

/-- The second half of a surrogate pair. -/
def readTrail (lead : Nat) : List Char → Option (Char × List Char)
  | '\\' :: 'u' :: rest => do
      let (trail, rest) ← readUnit rest
      if 0xDC00 ≤ trail ∧ trail < 0xE000 then
        some (Char.ofNat (0x10000 + (lead - 0xD800) * 0x400 + (trail - 0xDC00)), rest)
      else none
  | _ => none

/-- A character by its code. A surrogate on its own is none. -/
def readCode (text : List Char) : Option (Char × List Char) := do
  let (code, rest) ← readUnit text
  if code < 0xD800 ∨ 0xE000 ≤ code then some (Char.ofNat code, rest)
  else if code < 0xDC00 then readTrail code rest
  else none

/-- The character of an escape, behind the backslash. -/
def readEscape : List Char → Option (Char × List Char)
  | '"' :: rest => some ('"', rest)
  | '\\' :: rest => some ('\\', rest)
  | '/' :: rest => some ('/', rest)
  | 'b' :: rest => some (Char.ofNat 8, rest)
  | 'f' :: rest => some (Char.ofNat 12, rest)
  | 'n' :: rest => some ('\n', rest)
  | 'r' :: rest => some ('\r', rest)
  | 't' :: rest => some ('\t', rest)
  | 'u' :: rest => readCode rest
  | _ => none

/-- The characters of a string literal, behind its opening quote. -/
def readString : Nat → List Char → Option (List Char × List Char)
  | 0, _ => none
  | _ + 1, [] => none
  | fuel + 1, c :: text =>
      if c = '"' then some ([], text)
      else if c = '\\' then do
        let (d, rest) ← readEscape text
        let (cs, rest) ← readString fuel rest
        some (d :: cs, rest)
      else if c.toNat < 0x20 then none
      else do
        let (cs, rest) ← readString fuel text
        some (c :: cs, rest)

/-- The characters up to the first that no number has. -/
def readNumber (text : List Char) : Option (Json × List Char) :=
  if h : isNumeral (String.ofList (text.takeWhile isNumeralChar)) = true then
    some (.num ⟨String.ofList (text.takeWhile isNumeralChar), h⟩, text.dropWhile isNumeralChar)
  else none

/-- The members of an object, later ones over earlier ones of the same name. -/
def assignMembers (members : List (String × Json)) : List (String × Json) :=
  members.foldl (fun object e => Assoc.setKey e.1 e.2 object) []

mutual

/-- One value and the text behind it. -/
def readValue : Nat → List Char → Option (Json × List Char)
  | 0, _ => none
  | fuel + 1, text =>
      match skipSpace text with
      | 'n' :: 'u' :: 'l' :: 'l' :: rest => some (.null, rest)
      | 't' :: 'r' :: 'u' :: 'e' :: rest => some (.bool true, rest)
      | 'f' :: 'a' :: 'l' :: 's' :: 'e' :: rest => some (.bool false, rest)
      | '"' :: rest => do
          let (cs, rest) ← readString fuel rest
          some (.str (String.ofList cs), rest)
      | '[' :: rest =>
          match skipSpace rest with
          | ']' :: rest => some (.arr [], rest)
          | rest => do
              let (items, rest) ← readItems fuel rest
              some (.arr items, rest)
      | '\x7b' :: rest =>
          match skipSpace rest with
          | '\x7d' :: rest => some (.obj [], rest)
          | rest => do
              let (members, rest) ← readMembers fuel rest
              some (.obj (assignMembers members), rest)
      | text => readNumber text

/-- The items of an array that has some, and the text behind its bracket. -/
def readItems : Nat → List Char → Option (List Json × List Char)
  | 0, _ => none
  | fuel + 1, text => do
      let (x, rest) ← readValue fuel text
      match skipSpace rest with
      | ',' :: rest => do
          let (xs, rest) ← readItems fuel rest
          some (x :: xs, rest)
      | ']' :: rest => some ([x], rest)
      | _ => none

/-- The members of an object that has some, and the text behind its brace. -/
def readMembers : Nat → List Char → Option (List (String × Json) × List Char)
  | 0, _ => none
  | fuel + 1, text =>
      match skipSpace text with
      | '"' :: rest => do
          let (k, rest) ← readString fuel rest
          match skipSpace rest with
          | ':' :: rest => do
              let (x, rest) ← readValue fuel rest
              match skipSpace rest with
              | ',' :: rest => do
                  let (members, rest) ← readMembers fuel rest
                  some ((String.ofList k, x) :: members, rest)
              | '\x7d' :: rest => some ([(String.ofList k, x)], rest)
              | _ => none
          | _ => none
      | _ => none

end

/-- `JSON.parse`: the whole text has to be one value. -/
def jsonParse (text : String) : Option Json := do
  let (v, rest) ← readValue (text.toList.length + 1) text.toList
  if skipSpace rest = [] then some v else none

/-- `parseJson`. -/
def parseJson (text : String) : Option Json :=
  (jsonParse text).map normalizeJson

end PiWorkflows
