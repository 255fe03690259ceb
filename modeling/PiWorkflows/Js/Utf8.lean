import PiWorkflows.Js.Utf16

/-!
# Texts as bytes (`Buffer`)

`Buffer.from(text, "utf8")` writes the bytes of each character, and
`buffer.toString("utf8")` reads them back, with U+FFFD in place of what is not
UTF-8: one for each byte that cannot stand where it does, and one for a character
that is cut off. Between two bytes the reader keeps the bounds of the next one and
the bits it has (`PendingChar`).
-/

namespace PiWorkflows

abbrev Bytes := List UInt8

/-- `Buffer.from(text, "utf8")`. -/
def encodeUtf8 (text : List Char) : Bytes :=
  text.flatMap String.utf8EncodeChar

/-- A character whose first bytes have been read. -/
structure PendingChar where
  needed : Nat
  lower : Nat
  upper : Nat
  code : Nat

/-- U+FFFD. -/
def replacementChar : Char := Char.ofNat 0xFFFD

/-- A byte where a character may start. -/
def firstByte (b : Nat) : List Char × Option PendingChar :=
  if b < 0x80 then ([Char.ofNat b], none)
  else if 0xC2 ≤ b ∧ b < 0xE0 then ([], some ⟨1, 0x80, 0xC0, b - 0xC0⟩)
  else if 0xE0 ≤ b ∧ b < 0xF0 then
    ([], some ⟨2, if b = 0xE0 then 0xA0 else 0x80, if b = 0xED then 0xA0 else 0xC0, b - 0xE0⟩)
  else if 0xF0 ≤ b ∧ b < 0xF5 then
    ([], some ⟨3, if b = 0xF0 then 0x90 else 0x80, if b = 0xF4 then 0x90 else 0xC0, b - 0xF0⟩)
  else ([replacementChar], none)

/-- A byte inside a character. One out of bounds may start the next character. -/
def nextByte (pending : PendingChar) (b : Nat) : List Char × Option PendingChar :=
  if pending.lower ≤ b ∧ b < pending.upper then
    let code := pending.code * 64 + (b - 0x80)
    if pending.needed = 1 then ([Char.ofNat code], none)
    else ([], some ⟨pending.needed - 1, 0x80, 0xC0, code⟩)
  else (replacementChar :: (firstByte b).1, (firstByte b).2)

def decodeFrom : Option PendingChar → Bytes → List Char
  | none, [] => []
  | some _, [] => [replacementChar]
  | none, b :: rest => (firstByte b.toNat).1 ++ decodeFrom (firstByte b.toNat).2 rest
  | some pending, b :: rest =>
      (nextByte pending b.toNat).1 ++ decodeFrom (nextByte pending b.toNat).2 rest

/-- `buffer.toString("utf8")`. -/
def decodeUtf8 (bytes : Bytes) : List Char :=
  decodeFrom none bytes

theorem decodeFrom_none_cons (b : UInt8) (rest : Bytes) :
    decodeFrom none (b :: rest) =
      (firstByte b.toNat).1 ++ decodeFrom (firstByte b.toNat).2 rest := rfl

theorem uint8_toNat_ofNat {n : Nat} (h : n < 256) : (UInt8.ofNat n).toNat = n := by
  rw [UInt8.toNat_ofNat']
  exact Nat.mod_eq_of_lt h

/-- A byte in the bounds that is not the last. -/
theorem decodeFrom_more {needed lower upper code n : Nat} (hneeded : needed ≠ 1)
    (hlower : lower ≤ n) (hupper : n < upper) (hn : n < 256) (rest : Bytes) :
    decodeFrom (some ⟨needed, lower, upper, code⟩) (UInt8.ofNat n :: rest) =
      decodeFrom (some ⟨needed - 1, 0x80, 0xC0, code * 64 + (n - 0x80)⟩) rest := by
  rw [decodeFrom, uint8_toNat_ofNat hn, nextByte, if_pos ⟨hlower, hupper⟩, if_neg hneeded]
  rfl

/-- The last byte of a character. -/
theorem decodeFrom_last {lower upper code n : Nat} (hlower : lower ≤ n) (hupper : n < upper)
    (hn : n < 256) (rest : Bytes) :
    decodeFrom (some ⟨1, lower, upper, code⟩) (UInt8.ofNat n :: rest) =
      Char.ofNat (code * 64 + (n - 0x80)) :: decodeFrom none rest := by
  rw [decodeFrom, uint8_toNat_ofNat hn, nextByte, if_pos ⟨hlower, hupper⟩, if_pos rfl]
  rfl

theorem utf8EncodeChar_eq (c : Char) :
    String.utf8EncodeChar c =
      if c.toNat ≤ 0x7f then [UInt8.ofNat c.toNat]
      else if c.toNat ≤ 0x7ff then
        [UInt8.ofNat (c.toNat / 64 % 0x20 + 0xc0), UInt8.ofNat (c.toNat % 0x40 + 0x80)]
      else if c.toNat ≤ 0xffff then
        [UInt8.ofNat (c.toNat / 4096 % 0x10 + 0xe0), UInt8.ofNat (c.toNat / 64 % 0x40 + 0x80),
          UInt8.ofNat (c.toNat % 0x40 + 0x80)]
      else
        [UInt8.ofNat (c.toNat / 262144 % 0x08 + 0xf0), UInt8.ofNat (c.toNat / 4096 % 0x40 + 0x80),
          UInt8.ofNat (c.toNat / 64 % 0x40 + 0x80), UInt8.ofNat (c.toNat % 0x40 + 0x80)] := rfl

theorem decodeFrom_char (c : Char) (rest : Bytes) :
    decodeFrom none (String.utf8EncodeChar c ++ rest) = c :: decodeFrom none rest := by
  have hvalid : c.toNat < 0xD800 ∨ (0xDFFF < c.toNat ∧ c.toNat < 0x110000) := c.valid
  have hback : ∀ n, n = c.toNat → Char.ofNat n = c := by
    intro n hn
    rw [hn, Char.ofNat_toNat]
  rw [utf8EncodeChar_eq]
  split
  · rw [List.cons_append, decodeFrom_none_cons, uint8_toNat_ofNat (by omega), firstByte,
      if_pos (by omega), hback _ rfl]
    rfl
  · split
    · rw [List.cons_append, decodeFrom_none_cons, uint8_toNat_ofNat (by omega), firstByte,
        if_neg (by omega), if_pos (by omega)]
      show decodeFrom _ _ = _
      rw [List.cons_append, decodeFrom_last (by omega) (by omega) (by omega)]
      rw [hback _ (by omega)]
      rfl
    · split
      · rw [List.cons_append, decodeFrom_none_cons, uint8_toNat_ofNat (by omega), firstByte,
          if_neg (by omega), if_neg (by omega), if_pos (by omega)]
        show decodeFrom _ _ = _
        rw [List.cons_append, decodeFrom_more (by decide) (by split <;> omega) (by split <;> omega)
          (by omega), List.cons_append, decodeFrom_last (by omega) (by omega) (by omega),
          hback _ (by omega)]
        rfl
      · rw [List.cons_append, decodeFrom_none_cons, uint8_toNat_ofNat (by omega), firstByte,
          if_neg (by omega), if_neg (by omega), if_neg (by omega), if_pos (by omega)]
        show decodeFrom _ _ = _
        rw [List.cons_append, decodeFrom_more (by decide) (by split <;> omega) (by split <;> omega)
          (by omega), List.cons_append, decodeFrom_more (by decide) (by omega) (by omega)
          (by omega), List.cons_append, decodeFrom_last (by omega) (by omega) (by omega),
          hback _ (by omega)]
        rfl

theorem decodeUtf8_encodeUtf8 (text : List Char) : decodeUtf8 (encodeUtf8 text) = text := by
  induction text with
  | nil => rfl
  | cons c rest ih =>
      show decodeFrom none (String.utf8EncodeChar c ++ encodeUtf8 rest) = _
      rw [decodeFrom_char]
      exact congrArg (c :: ·) ih

end PiWorkflows
