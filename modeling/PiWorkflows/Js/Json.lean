import PiWorkflows.Lib.Assoc

/-!
# JSON values (`state/json.ts`)

A JSON value as JavaScript holds it: an object lists its members in creation
order, because `JSON.stringify` prints them in that order and `canonicalJson`
exists to undo it. Members with the same name cannot arise in JavaScript; here
the first one is the member, and `normalizeJson` drops the others.

A number is carried by the text `String(n)` prints for it. That text determines
the number, every operation of the program on JSON numbers is a comparison, a
test of kind or a print, and negative zero, which prints as zero, is read as
zero by `normalizeJson` and `cloneJson` alike.
-/

namespace PiWorkflows

/-- The characters of a number. -/
def isNumeralChar (c : Char) : Bool :=
  c.isDigit || c == '-' || c == '+' || c == '.' || c == 'e' || c == 'E'

def isDigits (cs : List Char) : Bool :=
  !cs.isEmpty && cs.all Char.isDigit

/-- Nothing, or a power of ten. -/
def isExponent : List Char → Bool
  | [] => true
  | [_] => false
  | c :: d :: cs =>
      (c == 'e' || c == 'E') && (if d == '-' || d == '+' then isDigits cs else isDigits (d :: cs))

/-- What may stand behind the digits before the point. -/
def isFraction : List Char → Bool
  | '.' :: cs => isDigits (cs.takeWhile Char.isDigit) && isExponent (cs.dropWhile Char.isDigit)
  | cs => isExponent cs

/-- Digits without a leading zero, a fraction and an exponent. -/
def isUnsigned (cs : List Char) : Bool :=
  (cs.takeWhile Char.isDigit == ['0'] ||
      isDigits (cs.takeWhile Char.isDigit) && cs.head? != some '0') &&
    isFraction (cs.dropWhile Char.isDigit)

/-- The number texts of JSON. They open with a digit or a sign, which is what keeps them
apart from the texts of all other JSON values. -/
def isNumeral (s : String) : Bool :=
  match s.toList with
  | '-' :: cs => isUnsigned cs
  | cs => isUnsigned cs

/-- A finite JavaScript number other than negative zero, as `String(n)` prints it. -/
structure JsNumber where
  text : String
  numeral : isNumeral text = true
  deriving DecidableEq

theorem isNumeralChar_of_isDigit {c : Char} (h : c.isDigit = true) : isNumeralChar c = true := by
  simp [isNumeralChar, h]

theorem all_of_isDigits {cs : List Char} (h : isDigits cs = true) :
    ∀ c ∈ cs, isNumeralChar c = true := by
  rw [isDigits, Bool.and_eq_true, List.all_eq_true] at h
  exact fun c hc => isNumeralChar_of_isDigit (h.2 c hc)

theorem all_takeWhile_isDigit (cs : List Char) :
    ∀ c ∈ cs.takeWhile Char.isDigit, isNumeralChar c = true := fun c hc =>
  isNumeralChar_of_isDigit (List.all_eq_true.1 List.all_takeWhile c hc)

theorem all_of_isExponent {cs : List Char} (h : isExponent cs = true) :
    ∀ c ∈ cs, isNumeralChar c = true := by
  fun_cases isExponent cs with
  | case1 => exact fun c hc => absurd hc List.not_mem_nil
  | case2 c => cases h
  | case3 c d cs =>
      rw [isExponent, Bool.and_eq_true, Bool.or_eq_true, beq_iff_eq, beq_iff_eq] at h
      obtain ⟨hc, hdigits⟩ := h
      have hhead : isNumeralChar c = true := by rcases hc with rfl | rfl <;> rfl
      refine List.forall_mem_cons.2 ⟨hhead, ?_⟩
      split at hdigits
      · next hsign =>
          rw [Bool.or_eq_true, beq_iff_eq, beq_iff_eq] at hsign
          have hsecond : isNumeralChar d = true := by rcases hsign with rfl | rfl <;> rfl
          exact List.forall_mem_cons.2 ⟨hsecond, all_of_isDigits hdigits⟩
      · exact all_of_isDigits hdigits

theorem all_of_isFraction {cs : List Char} (h : isFraction cs = true) :
    ∀ c ∈ cs, isNumeralChar c = true := by
  unfold isFraction at h
  split at h
  · next cs =>
      rw [Bool.and_eq_true] at h
      refine List.forall_mem_cons.2 ⟨rfl, ?_⟩
      rw [← List.takeWhile_append_dropWhile (p := Char.isDigit) (l := cs)]
      exact List.forall_mem_append.2 ⟨all_takeWhile_isDigit cs, all_of_isExponent h.2⟩
  · exact all_of_isExponent h

theorem isUnsigned_chars {cs : List Char} (h : isUnsigned cs = true) :
    (∃ c rest, cs = c :: rest ∧ c.isDigit = true) ∧ ∀ c ∈ cs, isNumeralChar c = true := by
  rw [isUnsigned, Bool.and_eq_true] at h
  constructor
  · cases cs with
    | nil => exact absurd h.1 (by decide)
    | cons c rest =>
        refine ⟨c, rest, rfl, ?_⟩
        by_contra hc
        rw [List.takeWhile_cons_of_neg (by simpa using hc)] at h
        exact absurd h.1 (by simp [isDigits])
  · rw [← List.takeWhile_append_dropWhile (p := Char.isDigit) (l := cs)]
    exact List.forall_mem_append.2 ⟨all_takeWhile_isDigit cs, all_of_isFraction h.2⟩

/-- The first character of a number, and all of them. -/
theorem isNumeral_chars {s : String} (h : isNumeral s = true) :
    (∃ c rest, s.toList = c :: rest ∧ (c.isDigit || c == '-') = true) ∧
      ∀ c ∈ s.toList, isNumeralChar c = true := by
  unfold isNumeral at h
  split at h
  · next cs heq =>
      rw [heq]
      exact ⟨⟨_, _, rfl, rfl⟩, List.forall_mem_cons.2 ⟨rfl, (isUnsigned_chars h).2⟩⟩
  · obtain ⟨⟨c, rest, hcons, hdigit⟩, hall⟩ := isUnsigned_chars h
    exact ⟨⟨c, rest, hcons, by rw [hdigit, Bool.true_or]⟩, hall⟩

theorem head?_toDigits {n : Nat} (h : 0 < n) : (Nat.toDigits 10 n).head? ≠ some '0' := by
  induction n using Nat.strongRecOn with
  | ind n ih =>
      by_cases hsmall : n < 10
      · rw [Nat.toDigits_of_lt_base hsmall]
        have hdigit : ∀ m : Fin 10, 0 < m.val → m.val.digitChar ≠ '0' := by decide
        exact fun hzero => hdigit ⟨n, hsmall⟩ h (Option.some.inj hzero)
      · rw [Nat.toDigits_of_base_le (by decide) (by omega)]
        have hrest := ih (n / 10) (by omega) (by omega)
        cases hdigits : Nat.toDigits 10 (n / 10) with
        | nil => exact absurd hdigits Nat.toDigits_ne_nil
        | cons c cs =>
            rw [hdigits] at hrest
            exact hrest

theorem isUnsigned_toDigits (n : Nat) : isUnsigned (Nat.toDigits 10 n) = true := by
  have hdigits : ∀ c ∈ Nat.toDigits 10 n, c.isDigit = true := fun c hc =>
    Nat.isDigit_of_mem_toDigits (by decide) (by decide) hc
  have hall : isDigits (Nat.toDigits 10 n) = true := by
    rw [isDigits, Bool.and_eq_true, List.all_eq_true]
    exact ⟨by simp [Nat.toDigits_ne_nil], hdigits⟩
  have htake : (Nat.toDigits 10 n).takeWhile Char.isDigit = Nat.toDigits 10 n := by
    rw [← List.append_nil (Nat.toDigits 10 n), List.takeWhile_append_of_pos hdigits]
    rfl
  have hdrop : (Nat.toDigits 10 n).dropWhile Char.isDigit = [] := by
    rw [← List.append_nil (Nat.toDigits 10 n), List.dropWhile_append_of_pos hdigits]
    rfl
  rw [isUnsigned, htake, hdrop, hall]
  rcases Nat.eq_zero_or_pos n with rfl | hpos
  · rfl
  · have hhead := head?_toDigits hpos
    simp [isFraction, isExponent, hhead]

theorem isNumeral_repr (n : Nat) : isNumeral n.repr = true := by
  have hunsigned := isUnsigned_toDigits n
  unfold isNumeral
  rw [Nat.toList_repr]
  split
  · next cs heq =>
      have hsign : '-' ∈ Nat.toDigits 10 n := heq ▸ List.mem_cons_self
      exact absurd (Nat.isDigit_of_mem_toDigits (by decide) (by decide) hsign) (by decide)
  · exact hunsigned

/-- A whole number, such as a length or a count of milliseconds. -/
def JsNumber.ofNat (n : Nat) : JsNumber :=
  ⟨n.repr, isNumeral_repr n⟩

theorem isNumeral_neg_repr (n : Nat) : isNumeral ("-" ++ n.repr) = true := by
  rw [isNumeral, String.toList_append, Nat.toList_repr]
  exact isUnsigned_toDigits n

/-- A whole number that may be negative. -/
def JsNumber.ofInt : Int → JsNumber
  | .ofNat n => .ofNat n
  | .negSucc n => ⟨"-" ++ (n + 1).repr, isNumeral_neg_repr (n + 1)⟩

/-- `Number.MAX_SAFE_INTEGER`. -/
def MAX_SAFE_INTEGER : Nat := 9007199254740991

/-- JSON values (`JsonValue`). -/
inductive Json where
  | null
  | bool (b : Bool)
  | num (n : JsNumber)
  | str (s : String)
  | arr (items : List Json)
  | obj (members : List (String × Json))

namespace Json

mutual

/-- Structural equality is decidable; `canonicalJson` is the program's own test. -/
def decEq : (a b : Json) → Decidable (a = b)
  | .null, .null => isTrue rfl
  | .bool a, .bool b => decidable_of_iff (a = b) (by simp)
  | .num a, .num b => decidable_of_iff (a = b) (by simp)
  | .str a, .str b => decidable_of_iff (a = b) (by simp)
  | .arr a, .arr b =>
      match decEqItems a b with
      | isTrue h => isTrue (h ▸ rfl)
      | isFalse h => isFalse fun e => h (Json.arr.inj e)
  | .obj a, .obj b =>
      match decEqMembers a b with
      | isTrue h => isTrue (h ▸ rfl)
      | isFalse h => isFalse fun e => h (Json.obj.inj e)
  | .null, .bool _ | .null, .num _ | .null, .str _ | .null, .arr _ | .null, .obj _
  | .bool _, .null | .bool _, .num _ | .bool _, .str _ | .bool _, .arr _ | .bool _, .obj _
  | .num _, .null | .num _, .bool _ | .num _, .str _ | .num _, .arr _ | .num _, .obj _
  | .str _, .null | .str _, .bool _ | .str _, .num _ | .str _, .arr _ | .str _, .obj _
  | .arr _, .null | .arr _, .bool _ | .arr _, .num _ | .arr _, .str _ | .arr _, .obj _
  | .obj _, .null | .obj _, .bool _ | .obj _, .num _ | .obj _, .str _ | .obj _, .arr _ =>
      isFalse (by simp)

def decEqItems : (a b : List Json) → Decidable (a = b)
  | [], [] => isTrue rfl
  | [], _ :: _ | _ :: _, [] => isFalse (by simp)
  | x :: xs, y :: ys =>
      match decEq x y, decEqItems xs ys with
      | isTrue h, isTrue h' => isTrue (by rw [h, h'])
      | isFalse h, _ => isFalse fun e => h (List.cons.inj e).1
      | _, isFalse h => isFalse fun e => h (List.cons.inj e).2

def decEqMembers : (a b : List (String × Json)) → Decidable (a = b)
  | [], [] => isTrue rfl
  | [], _ :: _ | _ :: _, [] => isFalse (by simp)
  | (k, x) :: xs, (k', y) :: ys =>
      match decEq x y, decEqMembers xs ys with
      | isTrue h, isTrue h' => decidable_of_iff (k = k') (by simp [h, h'])
      | isFalse h, _ => isFalse fun e => h (Prod.mk.inj (List.cons.inj e).1).2
      | _, isFalse h => isFalse fun e => h (List.cons.inj e).2

end

instance : DecidableEq Json := decEq

/-- An own member of an object; other values have none. -/
def member? : Json → String → Option Json
  | .obj members, k => members.lookup k
  | _, _ => none

end Json

/-- A member that is a text. -/
def textMember (value : Json) (key : String) : Option String :=
  match value.member? key with
  | some (.str text) => some text
  | _ => none

/-- A member that is a boolean. -/
def boolMember (value : Json) (key : String) : Option Bool :=
  match value.member? key with
  | some (.bool b) => some b
  | _ => none

/-- `Number.isSafeInteger(value) && value >= 0`, of a number by its printed text. -/
def isSafeNatural (n : JsNumber) : Bool :=
  let k := Nat.ofDigitChars 10 n.text.toList 0
  decide (n.text = k.repr) && decide (k ≤ MAX_SAFE_INTEGER)

/-- A member that is a non-negative safe integer. -/
def naturalMember (value : Json) (key : String) : Option Nat :=
  match value.member? key with
  | some (.num n) => if isSafeNatural n then some (Nat.ofDigitChars 10 n.text.toList 0) else none
  | _ => none

/-! ## Canonical form -/

/-- Where a character stands in the order of UTF-16 code units, which is the
order `Array.prototype.sort` uses: a character beyond the basic plane is encoded
by surrogates, so it comes before the end of the basic plane. -/
def utf16Rank (c : Char) : Nat :=
  if c.toNat < 0xE000 then c.toNat
  else if c.toNat < 0x10000 then c.toNat + 0x110000
  else c.toNat

theorem toNat_lt (c : Char) : c.toNat < 0x110000 := by
  rcases c.valid with h | ⟨_, h⟩
  · exact Nat.lt_trans h (by decide)
  · exact h

theorem utf16Rank_injective : Function.Injective utf16Rank := by
  intro a b h
  have ha := toNat_lt a
  have hb := toNat_lt b
  have hab : a.toNat = b.toNat := by
    unfold utf16Rank at h
    split at h <;> split at h <;> (try split at h) <;> (try split at h) <;> omega
  exact Char.toNat_inj.1 hab

/-- The rank member names are sorted by. -/
def keyRank (k : String) : List Nat :=
  k.toList.map utf16Rank

theorem keyRank_injective : Function.Injective keyRank := fun _ _ h =>
  String.toList_injective (utf16Rank_injective.list_map h)

mutual

/-- `normalizeJson`: the same value with every object's names in sorted order. -/
def normalizeJson : Json → Json
  | .arr items => .arr (normalizeItems items)
  | .obj members => .obj (normalizeMembers members)
  | .null => .null
  | .bool b => .bool b
  | .num n => .num n
  | .str s => .str s

def normalizeItems : List Json → List Json
  | [] => []
  | x :: xs => normalizeJson x :: normalizeItems xs

def normalizeMembers : List (String × Json) → List (String × Json)
  | [] => []
  | (k, x) :: rest => Assoc.insertMember keyRank k (normalizeJson x) (normalizeMembers rest)

end

/-- Lower-case hexadecimal digit of a number below sixteen. -/
def hexDigit (n : Nat) : Char :=
  if n < 10 then Char.ofNat (0x30 + n) else Char.ofNat (0x57 + n)

/-- One character inside a JSON string literal, as `JSON.stringify` writes it. -/
def escapeChar (c : Char) : List Char :=
  if c = '"' then ['\\', '"']
  else if c = '\\' then ['\\', '\\']
  else if c = '\n' then ['\\', 'n']
  else if c = '\r' then ['\\', 'r']
  else if c = '\t' then ['\\', 't']
  else if c.toNat = 8 then ['\\', 'b']
  else if c.toNat = 12 then ['\\', 'f']
  else if c.toNat < 0x20 then
    ['\\', 'u', '0', '0', hexDigit (c.toNat / 16), hexDigit (c.toNat % 16)]
  else [c]

/-- A JSON string literal. -/
def quoteChars (s : String) : List Char :=
  '"' :: (s.toList.flatMap escapeChar ++ ['"'])

mutual

/-- `JSON.stringify` without indentation, as the characters it writes. -/
def stringifyChars : Json → List Char
  | .null => ['n', 'u', 'l', 'l']
  | .bool true => ['t', 'r', 'u', 'e']
  | .bool false => ['f', 'a', 'l', 's', 'e']
  | .num n => n.text.toList
  | .str s => quoteChars s
  | .arr items => '[' :: (stringifyItems items ++ [']'])
  | .obj members => '\x7b' :: (stringifyMembers members ++ ['\x7d'])

def stringifyItems : List Json → List Char
  | [] => []
  | [x] => stringifyChars x
  | x :: y :: rest => stringifyChars x ++ ',' :: stringifyItems (y :: rest)

def stringifyMembers : List (String × Json) → List Char
  | [] => []
  | [(k, x)] => quoteChars k ++ ':' :: stringifyChars x
  | (k, x) :: e :: rest =>
      quoteChars k ++ ':' :: (stringifyChars x ++ ',' :: stringifyMembers (e :: rest))

end

/-- `JSON.stringify` of a JSON value. -/
def stringify (v : Json) : String :=
  String.ofList (stringifyChars v)

/-- `canonicalJson`: the text every hash and comparison of stored JSON uses. -/
def canonicalJson (v : Json) : String :=
  stringify (normalizeJson v)

/-- `isDeepStrictEqual` on JSON values: member order does not count. -/
def isDeepStrictEqual (a b : Json) : Bool :=
  normalizeJson a = normalizeJson b

/-! ## Laws of the canonical form -/

theorem sorted_normalizeMembers (members : List (String × Json)) :
    Assoc.Sorted keyRank (normalizeMembers members) := by
  induction members with
  | nil => rw [normalizeMembers]; exact List.Pairwise.nil
  | cons e rest ih =>
      obtain ⟨k, x⟩ := e
      rw [normalizeMembers]
      exact Assoc.sorted_insertMember keyRank_injective k _ ih

/-- Sorting keeps every member, with its value normalised. -/
theorem lookup_normalizeMembers (k : String) (members : List (String × Json)) :
    (normalizeMembers members).lookup k = (members.lookup k).map normalizeJson := by
  induction members with
  | nil => simp [normalizeMembers]
  | cons e rest ih =>
      obtain ⟨k', x⟩ := e
      rw [normalizeMembers, Assoc.lookup_insertMember (sorted_normalizeMembers rest),
        Assoc.lookup_cons_eq, ih]
      split <;> rfl

/-- Two records sort to the same canonical record exactly when they answer every
lookup with the same canonical value. -/
theorem normalizeMembers_eq_iff {l l' : List (String × Json)} :
    normalizeMembers l = normalizeMembers l' ↔
      ∀ k, (l.lookup k).map normalizeJson = (l'.lookup k).map normalizeJson := by
  constructor
  · intro h k
    rw [← lookup_normalizeMembers, ← lookup_normalizeMembers, h]
  · intro h
    refine Assoc.sorted_ext (sorted_normalizeMembers l) (sorted_normalizeMembers l') ?_
    intro k
    rw [lookup_normalizeMembers, lookup_normalizeMembers, h k]

theorem normalizeItems_eq_map (items : List Json) :
    normalizeItems items = items.map normalizeJson := by
  induction items with
  | nil => rw [normalizeItems]; rfl
  | cons x xs ih => rw [normalizeItems, ih]; rfl

mutual

/-- The canonical form is its own. -/
theorem normalizeJson_idem (v : Json) : normalizeJson (normalizeJson v) = normalizeJson v := by
  match v with
  | .null | .bool _ | .num _ | .str _ => rfl
  | .arr items =>
      rw [normalizeJson, normalizeJson, normalizeItems_idem items]
  | .obj members =>
      rw [normalizeJson, normalizeJson]
      congr 1
      refine Assoc.sorted_ext (sorted_normalizeMembers _) (sorted_normalizeMembers _) fun k => ?_
      rw [lookup_normalizeMembers, lookup_normalizeMembers, Option.map_map]
      cases hk : members.lookup k with
      | none => rfl
      | some x => exact congrArg some (normalizeMember_idem members hk)

theorem normalizeItems_idem (items : List Json) :
    normalizeItems (normalizeItems items) = normalizeItems items := by
  match items with
  | [] => rfl
  | x :: xs =>
      rw [normalizeItems, normalizeItems, normalizeJson_idem x, normalizeItems_idem xs]

theorem normalizeMember_idem (members : List (String × Json)) {k : String} {x : Json}
    (h : members.lookup k = some x) : normalizeJson (normalizeJson x) = normalizeJson x := by
  match members with
  | [] => cases h
  | (k', y) :: rest =>
      rw [Assoc.lookup_cons_eq] at h
      split at h
      · rw [← Option.some.inj h]
        exact normalizeJson_idem y
      · exact normalizeMember_idem rest h

end

end PiWorkflows
