import PiWorkflows.Js.Text
import PiWorkflows.Js.Value

/-!
# JSON in the text of a model (`workflows/json.ts`)

What a model answers is searched for JSON in three ways, one after the other: the
whole text, the first fenced block, and the bracketed parts. The brackets are
matched by a scan that knows strings and escapes, and at most
`MAX_CANDIDATE_SCANS` scans are made.
-/

namespace PiWorkflows

inductive JsonParseMode where
  | strict
  | fenced
  | compat
  deriving DecidableEq

/-- `text.trim()`. -/
def trimChars (text : List Char) : List Char :=
  ((text.dropWhile isTrimmed).reverse.dropWhile isTrimmed).reverse

def tryParse (text : List Char) : Option JsTree :=
  JsTree.parse (String.ofList text)

/-! ## Fenced text -/

def codeFence : List Char :=
  "```".toList

/-- The text up to the first code fence, and the text behind it. -/
def cutFence : List Char → Option (List Char × List Char)
  | [] => none
  | c :: text =>
      if codeFence.isPrefixOf (c :: text) then some ([], (c :: text).drop codeFence.length)
      else (cutFence text).map fun r => (c :: r.1, r.2)

def isFenceWhitespace (c : Char) : Bool :=
  c == ' ' || c == '\n' || c == '\r' || c == '\t'

/-- The text behind the word `json`, where white space follows the word. -/
def skipTag : List Char → List Char
  | j :: s :: o :: n :: w :: text =>
      if [j, s, o, n].map Char.toLower = "json".toList && isFenceWhitespace w then w :: text
      else j :: s :: o :: n :: w :: text
  | text => text

def extractFencedJsonText (text : List Char) : Option (List Char) :=
  match cutFence text with
  | none => none
  | some (_, text) =>
      (cutFence ((skipTag text).dropWhile isFenceWhitespace)).map fun r => trimChars r.1

/-! ## Bracketed text -/

def MAX_CANDIDATE_SCANS : Nat := 64

def isOpening (c : Char) : Bool :=
  c == '\x7b' || c == '['

def isClosing (c : Char) : Bool :=
  c == '\x7d' || c == ']'

/-- Whether a closing bracket closes the innermost open one. -/
def closes (stack : List Char) (c : Char) : Bool :=
  match stack.head? with
  | some '\x7b' => c == '\x7d'
  | some '[' => c == ']'
  | _ => false

/-- The text up to the bracket that closes the outermost open one. -/
def scanFrom (stack : List Char) (inString escaped : Bool) : List Char → Option (List Char)
  | [] => none
  | c :: text =>
      let scanned :=
        if inString then
          if escaped then scanFrom stack true false text
          else if c = '\\' then scanFrom stack true true text
          else if c = '"' then scanFrom stack false false text
          else scanFrom stack true false text
        else if c = '"' then scanFrom stack true escaped text
        else if isOpening c then scanFrom (c :: stack) false escaped text
        else if !isClosing c then scanFrom stack false escaped text
        else if !closes stack c then none
        else if stack.tail.isEmpty then some []
        else scanFrom stack.tail false escaped text
      scanned.map fun rest => c :: rest

/-- `scanBalanced`, on the text from the start index on. -/
def scanBalanced (text : List Char) : Option (List Char) :=
  scanFrom [] false false text

/-- The candidates of at most so many scans. -/
def candidatesWithin : Nat → List Char → List (List Char)
  | 0, _ | _ + 1, [] => []
  | scans + 1, c :: text =>
      if isOpening c then (scanBalanced (c :: text)).toList ++ candidatesWithin scans text
      else candidatesWithin (scans + 1) text

def extractBalancedJsonCandidates (text : List Char) : List (List Char) :=
  candidatesWithin MAX_CANDIDATE_SCANS text

/-! ## The three ways -/

/-- The value in the first fenced block, where the mode looks for one. -/
def fencedValue (mode : JsonParseMode) (text : List Char) : Option JsTree :=
  if mode = .fenced ∨ mode = .compat then (extractFencedJsonText text).bind tryParse else none

/-- The value of the first bracketed part that is one, where the mode looks for it. -/
def embeddedValue (mode : JsonParseMode) (text : List Char) : Option JsTree :=
  if mode = .compat then (extractBalancedJsonCandidates text).findSome? tryParse else none

def parseJsonValue (mode : JsonParseMode) (text : String) : Except String JsTree :=
  let trimmed := trimChars text.toList
  if trimmed = [] then .error "Expected JSON output, got empty text"
  else
    match (tryParse trimmed).or ((fencedValue mode trimmed).or (embeddedValue mode trimmed)) with
    | some value => .ok value
    | none => .error s!"Could not parse JSON from text:\n{String.ofList trimmed}"

def parseStrictJsonValue (text : String) : Except String JsTree :=
  parseJsonValue .strict text

def extractJsonValue (text : String) : Except String JsTree :=
  parseJsonValue .compat text

end PiWorkflows
