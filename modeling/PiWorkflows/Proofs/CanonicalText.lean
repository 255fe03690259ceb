import PiWorkflows.Js.Json

/-!
# Canonical text determines the value

The store compares JSON by comparing texts: hashes of canonical text for blobs
and receipts, the texts themselves for settings. That is sound because no two
values print alike. The proof reads the text back in place: a printed value is
never a proper prefix of another one where a value may end (`stringify_readBack`),
so equal texts split at the same points all the way down.

The first character already tells the kinds apart (`kindChar`), an escape can be
undone from its own characters (`unescapeChar`), and a number ends where the
characters of a number end.
-/

namespace PiWorkflows

/-! ## String literals -/

/-- The value of a hexadecimal digit that `escapeChar` writes. -/
def hexValue (c : Char) : Nat :=
  if c.toNat < 0x40 then c.toNat - 0x30 else c.toNat - 0x57

/-- Undo `escapeChar` at the head of a text. -/
def unescapeChar : List Char → Option (Char × List Char)
  | '\\' :: 'n' :: rest => some ('\n', rest)
  | '\\' :: 'r' :: rest => some ('\r', rest)
  | '\\' :: 't' :: rest => some ('\t', rest)
  | '\\' :: 'b' :: rest => some (Char.ofNat 8, rest)
  | '\\' :: 'f' :: rest => some (Char.ofNat 12, rest)
  | '\\' :: 'u' :: _ :: _ :: a :: b :: rest =>
      some (Char.ofNat (16 * hexValue a + hexValue b), rest)
  | '\\' :: c :: rest => some (c, rest)
  | c :: rest => some (c, rest)
  | [] => none

theorem hexValue_hexDigit {n : Nat} (h : n < 16) : hexValue (hexDigit n) = n := by
  revert h
  revert n
  decide

theorem unescapeChar_escapeChar (c : Char) (rest : List Char) :
    unescapeChar (escapeChar c ++ rest) = some (c, rest) := by
  unfold escapeChar
  split
  · next h => subst h; rfl
  split
  · next h => subst h; rfl
  split
  · next h => subst h; rfl
  split
  · next h => subst h; rfl
  split
  · next h => subst h; rfl
  split
  · next h =>
      have hc : c = Char.ofNat 8 := by rw [← h, Char.ofNat_toNat]
      subst hc; rfl
  split
  · next h =>
      have hc : c = Char.ofNat 12 := by rw [← h, Char.ofNat_toNat]
      subst hc; rfl
  split
  · next h =>
      have hhigh : hexValue (hexDigit (c.toNat / 16)) = c.toNat / 16 :=
        hexValue_hexDigit (by omega)
      have hlow : hexValue (hexDigit (c.toNat % 16)) = c.toNat % 16 :=
        hexValue_hexDigit (by omega)
      have hsum : 16 * (c.toNat / 16) + c.toNat % 16 = c.toNat := Nat.div_add_mod _ _
      show some (Char.ofNat (16 * hexValue (hexDigit (c.toNat / 16)) +
        hexValue (hexDigit (c.toNat % 16))), rest) = some (c, rest)
      rw [hhigh, hlow, hsum, Char.ofNat_toNat]
  · next hquote hback _ _ _ _ _ _ =>
      show unescapeChar (c :: rest) = some (c, rest)
      unfold unescapeChar
      split <;> simp_all

/-- An escaped character never starts with the quote that ends a literal. -/
theorem escapeChar_head (c : Char) : ∃ d ds, escapeChar c = d :: ds ∧ d ≠ '"' := by
  unfold escapeChar
  repeat' split
  all_goals first
    | exact ⟨_, _, rfl, by decide⟩
    | exact ⟨_, _, rfl, by assumption⟩

theorem escape_readBack {s t : List Char} {rest rest' : List Char}
    (h : s.flatMap escapeChar ++ '"' :: rest = t.flatMap escapeChar ++ '"' :: rest') :
    s = t ∧ rest = rest' := by
  induction s generalizing t with
  | nil =>
      cases t with
      | nil => exact ⟨rfl, by simpa using h⟩
      | cons c cs =>
          obtain ⟨d, ds, hd, hne⟩ := escapeChar_head c
          rw [List.flatMap_cons, hd] at h
          exact absurd (by simpa using congrArg List.head? h : '"' = d) (Ne.symm hne)
  | cons b bs ih =>
      cases t with
      | nil =>
          obtain ⟨d, ds, hd, hne⟩ := escapeChar_head b
          rw [List.flatMap_cons, hd] at h
          exact absurd (by simpa using congrArg List.head? h : d = '"') hne
      | cons c cs =>
          rw [List.flatMap_cons, List.flatMap_cons, List.append_assoc, List.append_assoc] at h
          have hread := congrArg unescapeChar h
          rw [unescapeChar_escapeChar, unescapeChar_escapeChar, Option.some.injEq,
            Prod.mk.injEq] at hread
          obtain ⟨rfl, htail⟩ := hread
          obtain ⟨rfl, hrest⟩ := ih htail
          exact ⟨rfl, hrest⟩

theorem quote_readBack {s t : String} {rest rest' : List Char}
    (h : quoteChars s ++ rest = quoteChars t ++ rest') : s = t ∧ rest = rest' := by
  simp only [quoteChars, List.cons_append, List.append_assoc, List.nil_append,
    List.cons.injEq, true_and] at h
  obtain ⟨hst, hrest⟩ := escape_readBack h
  exact ⟨String.toList_injective hst, hrest⟩

/-! ## Numbers -/

/-- Where a value may end: at the end of the text or before a character no
number has. -/
def Delimited (rest : List Char) : Prop :=
  ∀ c, rest.head? = some c → isNumeralChar c = false

theorem JsNumber.all_numeral (n : JsNumber) : ∀ c ∈ n.text.toList, isNumeralChar c = true :=
  (isNumeral_chars n.numeral).2

theorem takeWhile_numeral {l rest : List Char} (hl : ∀ c ∈ l, isNumeralChar c = true)
    (hrest : Delimited rest) : (l ++ rest).takeWhile isNumeralChar = l := by
  rw [List.takeWhile_append_of_pos hl]
  cases rest with
  | nil => simp
  | cons c cs => rw [List.takeWhile_cons_of_neg (by simp [hrest c rfl]), List.append_nil]

theorem number_readBack {n m : JsNumber} {rest rest' : List Char} (hrest : Delimited rest)
    (hrest' : Delimited rest') (h : n.text.toList ++ rest = m.text.toList ++ rest') :
    n = m ∧ rest = rest' := by
  have htext : n.text.toList = m.text.toList := by
    rw [← takeWhile_numeral n.all_numeral hrest, h, takeWhile_numeral m.all_numeral hrest']
  rw [htext] at h
  refine ⟨?_, List.append_cancel_left h⟩
  cases n
  cases m
  simpa [String.toList_inj] using htext

/-! ## Values -/

/-- What the first character of a printed value says about it. -/
def kindChar (c : Char) : Char :=
  if c.isDigit || c == '-' then '0' else c

/-- The kind character of a value. -/
def Json.kind : Json → Char
  | .null => 'n'
  | .bool true => 't'
  | .bool false => 'f'
  | .num _ => '0'
  | .str _ => '"'
  | .arr _ => '['
  | .obj _ => '\x7b'

theorem stringifyChars_head (v : Json) :
    ∃ c cs, stringifyChars v = c :: cs ∧ kindChar c = v.kind := by
  cases v with
  | null => exact ⟨_, _, by rw [stringifyChars], by decide⟩
  | bool b => cases b <;> exact ⟨_, _, by rw [stringifyChars], by decide⟩
  | num n =>
      obtain ⟨c, cs, hl, hc⟩ := (isNumeral_chars n.numeral).1
      exact ⟨c, cs, by rw [stringifyChars, hl], if_pos hc⟩
  | str s => exact ⟨_, _, by rw [stringifyChars, quoteChars], rfl⟩
  | arr items => exact ⟨_, _, by rw [stringifyChars], rfl⟩
  | obj members => exact ⟨_, _, by rw [stringifyChars], rfl⟩

theorem kind_of_prefix {v w : Json} {rest rest' : List Char}
    (h : stringifyChars v ++ rest = stringifyChars w ++ rest') : v.kind = w.kind := by
  obtain ⟨c, cs, hv, hc⟩ := stringifyChars_head v
  obtain ⟨d, ds, hw, hd⟩ := stringifyChars_head w
  rw [hv, hw, List.cons_append, List.cons_append, List.cons.injEq] at h
  rw [← hc, ← hd, h.1]

/-- No printed value starts with a closing bracket, a comma or a brace. -/
theorem stringifyChars_ne {v : Json} {c : Char} {rest rest' : List Char}
    (hc : ∀ w : Json, w.kind ≠ kindChar c) : stringifyChars v ++ rest ≠ c :: rest' := by
  intro h
  obtain ⟨d, ds, hv, hd⟩ := stringifyChars_head v
  rw [hv, List.cons_append, List.cons.injEq] at h
  exact hc v (by rw [← hd, h.1])

theorem kind_ne {c : Char} (hc : c ∉ ['n', 't', 'f', '0', '"', '[', '\x7b']) (w : Json) :
    w.kind ≠ c := by
  rintro rfl
  cases w with
  | bool b => cases b <;> exact hc (by decide)
  | _ => exact hc (by simp [Json.kind])

theorem delimited_cons {c : Char} {rest : List Char} (h : isNumeralChar c = false) :
    Delimited (c :: rest) := by
  intro d hd
  cases hd
  exact h

mutual

/-- Two printed values that begin one text are the same value. -/
theorem stringify_readBack (v w : Json) {rest rest' : List Char} (hrest : Delimited rest)
    (hrest' : Delimited rest') (h : stringifyChars v ++ rest = stringifyChars w ++ rest') :
    v = w ∧ rest = rest' := by
  have hkind := kind_of_prefix h
  match v, w with
  | .null, .null => exact ⟨rfl, List.append_cancel_left h⟩
  | .bool true, .bool true => exact ⟨rfl, List.append_cancel_left h⟩
  | .bool false, .bool false => exact ⟨rfl, List.append_cancel_left h⟩
  | .num n, .num m =>
      rw [stringifyChars, stringifyChars] at h
      obtain ⟨rfl, hr⟩ := number_readBack hrest hrest' h
      exact ⟨rfl, hr⟩
  | .str s, .str t =>
      rw [stringifyChars, stringifyChars] at h
      obtain ⟨rfl, hr⟩ := quote_readBack h
      exact ⟨rfl, hr⟩
  | .arr xs, .arr ys =>
      rw [stringifyChars, stringifyChars] at h
      simp only [List.cons_append, List.append_assoc, List.nil_append, List.cons.injEq,
        true_and] at h
      obtain ⟨rfl, hr⟩ := stringifyItems_readBack xs ys h
      exact ⟨rfl, hr⟩
  | .obj xs, .obj ys =>
      rw [stringifyChars, stringifyChars] at h
      simp only [List.cons_append, List.append_assoc, List.nil_append, List.cons.injEq,
        true_and] at h
      obtain ⟨rfl, hr⟩ := stringifyMembers_readBack xs ys h
      exact ⟨rfl, hr⟩
  | .null, .bool b | .num _, .bool b | .str _, .bool b | .arr _, .bool b | .obj _, .bool b
  | .bool b, .null | .bool b, .num _ | .bool b, .str _ | .bool b, .arr _ | .bool b, .obj _ =>
      cases b <;> exact absurd hkind (by simp [Json.kind])
  | .bool true, .bool false | .bool false, .bool true
  | .null, .num _ | .null, .str _ | .null, .arr _ | .null, .obj _
  | .num _, .null | .num _, .str _ | .num _, .arr _ | .num _, .obj _
  | .str _, .null | .str _, .num _ | .str _, .arr _ | .str _, .obj _
  | .arr _, .null | .arr _, .num _ | .arr _, .str _ | .arr _, .obj _
  | .obj _, .null | .obj _, .num _ | .obj _, .str _ | .obj _, .arr _ =>
      exact absurd hkind (by simp [Json.kind])

theorem stringifyItems_readBack (xs ys : List Json) {rest rest' : List Char}
    (h : stringifyItems xs ++ ']' :: rest = stringifyItems ys ++ ']' :: rest') :
    xs = ys ∧ rest = rest' := by
  match xs, ys with
  | [], [] => exact ⟨rfl, by simpa [stringifyItems] using h⟩
  | [], [y] =>
      rw [stringifyItems, stringifyItems] at h
      exact absurd h.symm (stringifyChars_ne (kind_ne (by decide)))
  | [], y :: _ :: _ =>
      rw [stringifyItems, stringifyItems, List.append_assoc] at h
      exact absurd h.symm (stringifyChars_ne (kind_ne (by decide)))
  | [x], [] =>
      rw [stringifyItems, stringifyItems] at h
      exact absurd h (stringifyChars_ne (kind_ne (by decide)))
  | x :: _ :: _, [] =>
      rw [stringifyItems, stringifyItems, List.append_assoc] at h
      exact absurd h (stringifyChars_ne (kind_ne (by decide)))
  | [x], [y] =>
      rw [stringifyItems, stringifyItems] at h
      obtain ⟨rfl, hr⟩ := stringify_readBack x y (delimited_cons (by decide))
        (delimited_cons (by decide)) h
      exact ⟨rfl, (List.cons.inj hr).2⟩
  | [x], y :: z :: ys =>
      rw [stringifyItems, stringifyItems, List.append_assoc, List.cons_append] at h
      obtain ⟨_, hr⟩ := stringify_readBack x y (delimited_cons (by decide))
        (delimited_cons (by decide)) h
      exact absurd (List.cons.inj hr).1 (by decide)
  | x :: z :: xs, [y] =>
      rw [stringifyItems, stringifyItems, List.append_assoc, List.cons_append] at h
      obtain ⟨_, hr⟩ := stringify_readBack x y (delimited_cons (by decide))
        (delimited_cons (by decide)) h
      exact absurd (List.cons.inj hr).1 (by decide)
  | x :: x' :: xs, y :: y' :: ys =>
      rw [stringifyItems, stringifyItems, List.append_assoc, List.append_assoc,
        List.cons_append, List.cons_append] at h
      obtain ⟨rfl, hr⟩ := stringify_readBack x y (delimited_cons (by decide))
        (delimited_cons (by decide)) h
      obtain ⟨htail, hr'⟩ := stringifyItems_readBack (x' :: xs) (y' :: ys) (List.cons.inj hr).2
      exact ⟨by rw [htail], hr'⟩

theorem stringifyMembers_readBack (xs ys : List (String × Json)) {rest rest' : List Char}
    (h : stringifyMembers xs ++ '\x7d' :: rest = stringifyMembers ys ++ '\x7d' :: rest') :
    xs = ys ∧ rest = rest' := by
  match xs, ys with
  | [], [] => exact ⟨rfl, by simpa [stringifyMembers] using h⟩
  | [], [(_, _)] | [], (_, _) :: _ :: _ => simp [stringifyMembers, quoteChars] at h
  | [(_, _)], [] | (_, _) :: _ :: _, [] => simp [stringifyMembers, quoteChars] at h
  | [(k, x)], [(k', y)] =>
      simp only [stringifyMembers, List.append_assoc, List.cons_append] at h
      obtain ⟨rfl, hr⟩ := quote_readBack h
      obtain ⟨rfl, hr'⟩ := stringify_readBack x y (delimited_cons (by decide))
        (delimited_cons (by decide)) (List.cons.inj hr).2
      exact ⟨rfl, (List.cons.inj hr').2⟩
  | [(k, x)], (k', y) :: z :: ys =>
      simp only [stringifyMembers, List.append_assoc, List.cons_append] at h
      obtain ⟨_, hr⟩ := quote_readBack h
      obtain ⟨_, hr'⟩ := stringify_readBack x y (delimited_cons (by decide))
        (delimited_cons (by decide)) (List.cons.inj hr).2
      exact absurd (List.cons.inj hr').1 (by decide)
  | (k, x) :: z :: xs, [(k', y)] =>
      simp only [stringifyMembers, List.append_assoc, List.cons_append] at h
      obtain ⟨_, hr⟩ := quote_readBack h
      obtain ⟨_, hr'⟩ := stringify_readBack x y (delimited_cons (by decide))
        (delimited_cons (by decide)) (List.cons.inj hr).2
      exact absurd (List.cons.inj hr').1 (by decide)
  | (k, x) :: x' :: xs, (k', y) :: y' :: ys =>
      simp only [stringifyMembers, List.append_assoc, List.cons_append] at h
      obtain ⟨rfl, hr⟩ := quote_readBack h
      obtain ⟨rfl, hr'⟩ := stringify_readBack x y (delimited_cons (by decide))
        (delimited_cons (by decide)) (List.cons.inj hr).2
      obtain ⟨htail, hr''⟩ :=
        stringifyMembers_readBack (x' :: xs) (y' :: ys) (List.cons.inj hr').2
      exact ⟨by rw [htail], hr''⟩

end

theorem stringify_injective : Function.Injective stringify := by
  intro v w h
  have hchars : stringifyChars v ++ [] = stringifyChars w ++ [] := by
    rw [String.ofList_injective h]
  exact (stringify_readBack v w (by intro c hc; cases hc) (by intro c hc; cases hc) hchars).1

/-- Canonical texts are equal exactly when the values are, member order aside. -/
theorem canonicalJson_eq_iff {a b : Json} :
    canonicalJson a = canonicalJson b ↔ normalizeJson a = normalizeJson b :=
  ⟨fun h => stringify_injective h, fun h => congrArg stringify h⟩

end PiWorkflows
