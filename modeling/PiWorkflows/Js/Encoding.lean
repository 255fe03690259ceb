import PiWorkflows.Js.Parse
import PiWorkflows.Js.Text
import PiWorkflows.Js.Utf8

/-!
# Bytes as plain text (`buffer.toString("hex")`, `buffer.toString("base64")`)

Both encodings write every byte, so the readers give back what was written. The
reader of base64 passes over characters it does not know and stops at the
padding; the reader of hexadecimal stops at the first pair that is not one.
-/

namespace PiWorkflows

/-! ## Hexadecimal -/

/-- `buffer.toString("hex")`. -/
def hexOfBytes (bytes : Bytes) : List Char :=
  bytes.flatMap fun b => [hexDigit (b.toNat / 16), hexDigit (b.toNat % 16)]

/-- `Buffer.from(text, "hex")`. -/
def bytesOfHex : List Char → Bytes
  | a :: b :: rest =>
      match readHexDigit a, readHexDigit b with
      | some high, some low => UInt8.ofNat (high * 16 + low) :: bytesOfHex rest
      | _, _ => []
  | _ => []

theorem uint8_toNat_lt (b : UInt8) : b.toNat < 256 := b.toNat_lt

theorem isHexDigit_hexDigit : ∀ n < 16, isHexDigit (hexDigit n) = true := by decide

theorem bytesOfHex_hexOfBytes (bytes : Bytes) : bytesOfHex (hexOfBytes bytes) = bytes := by
  induction bytes with
  | nil => rfl
  | cons b rest ih =>
      have hb := uint8_toNat_lt b
      have hback : UInt8.ofNat (b.toNat / 16 * 16 + b.toNat % 16) = b := by
        rw [Nat.div_add_mod', UInt8.ofNat_toNat]
      show bytesOfHex (hexDigit (b.toNat / 16) :: hexDigit (b.toNat % 16) :: hexOfBytes rest) = _
      rw [bytesOfHex, readHexDigit_hexDigit (by omega), readHexDigit_hexDigit (by omega)]
      show UInt8.ofNat (b.toNat / 16 * 16 + b.toNat % 16) :: bytesOfHex (hexOfBytes rest) = _
      rw [hback, ih]

theorem length_hexOfBytes (bytes : Bytes) : (hexOfBytes bytes).length = 2 * bytes.length := by
  induction bytes with
  | nil => rfl
  | cons b rest ih =>
      show (hexOfBytes rest).length + 1 + 1 = _
      rw [ih, List.length_cons]
      omega

theorem isHexDigit_of_mem {bytes : Bytes} {c : Char} (h : c ∈ hexOfBytes bytes) :
    isHexDigit c = true := by
  obtain ⟨b, -, hc⟩ := List.mem_flatMap.1 h
  have hb := uint8_toNat_lt b
  rcases List.mem_cons.1 hc with rfl | hc
  · exact isHexDigit_hexDigit _ (by omega)
  · rw [List.mem_singleton.1 hc]
    exact isHexDigit_hexDigit _ (by omega)

/-! ## Base64 -/

def base64Alphabet : List Char :=
  "ABCDEFGHIJKLMNOPQRSTUVWXYZabcdefghijklmnopqrstuvwxyz0123456789+/".toList

def base64Digit (n : Nat) : Char :=
  base64Alphabet.getD n '='

/-- The six bits a character stands for; the letters of the URL alphabet are read too. -/
def base64Value (c : Char) : Option Nat :=
  if 'A' ≤ c ∧ c ≤ 'Z' then some (c.toNat - 0x41)
  else if 'a' ≤ c ∧ c ≤ 'z' then some (c.toNat - 0x61 + 26)
  else if c.isDigit then some (c.toNat - 0x30 + 52)
  else if c = '+' ∨ c = '-' then some 62
  else if c = '/' ∨ c = '_' then some 63
  else none

/-- Three bytes as four numbers of six bits. -/
def sextetsOfBytes : Bytes → List Nat
  | a :: b :: c :: rest =>
      a.toNat / 4 :: (a.toNat % 4 * 16 + b.toNat / 16) :: (b.toNat % 16 * 4 + c.toNat / 64) ::
        c.toNat % 64 :: sextetsOfBytes rest
  | [a, b] => [a.toNat / 4, a.toNat % 4 * 16 + b.toNat / 16, b.toNat % 16 * 4]
  | [a] => [a.toNat / 4, a.toNat % 4 * 16]
  | [] => []

def bytesOfSextets : List Nat → Bytes
  | w :: x :: y :: z :: rest =>
      UInt8.ofNat (w * 4 + x / 16) :: UInt8.ofNat (x % 16 * 16 + y / 4) ::
        UInt8.ofNat (y % 4 * 64 + z) :: bytesOfSextets rest
  | [w, x, y] => [UInt8.ofNat (w * 4 + x / 16), UInt8.ofNat (x % 16 * 16 + y / 4)]
  | [w, x] => [UInt8.ofNat (w * 4 + x / 16)]
  | _ => []

/-- `buffer.toString("base64")`. -/
def base64OfBytes (bytes : Bytes) : List Char :=
  (sextetsOfBytes bytes).map base64Digit ++ List.replicate ((3 - bytes.length % 3) % 3) '='

/-- `Buffer.from(text, "base64")`. -/
def bytesOfBase64 (text : List Char) : Bytes :=
  bytesOfSextets ((text.takeWhile (· ≠ '=')).filterMap base64Value)

theorem base64Value_digit : ∀ n < 64, base64Value (base64Digit n) = some n := by
  decide +kernel

theorem base64Digit_ne_pad : ∀ n < 64, base64Digit n ≠ '=' := by decide +kernel

theorem sextet_lt (bytes : Bytes) : ∀ n ∈ sextetsOfBytes bytes, n < 64 := by
  fun_induction sextetsOfBytes bytes with
  | case1 a b c rest ih =>
      have ha := uint8_toNat_lt a
      have hb := uint8_toNat_lt b
      have hc := uint8_toNat_lt c
      simp only [List.mem_cons, forall_eq_or_imp]
      exact ⟨by omega, by omega, by omega, by omega, ih⟩
  | case2 a b =>
      have ha := uint8_toNat_lt a
      have hb := uint8_toNat_lt b
      simp only [List.mem_cons, forall_eq_or_imp, List.not_mem_nil, false_implies, implies_true]
      exact ⟨by omega, by omega, by omega, trivial⟩
  | case3 a =>
      have ha := uint8_toNat_lt a
      simp only [List.mem_cons, forall_eq_or_imp, List.not_mem_nil, false_implies, implies_true]
      exact ⟨by omega, by omega, trivial⟩
  | case4 => exact fun n hn => absurd hn List.not_mem_nil

theorem bytesOfSextets_sextets (bytes : Bytes) : bytesOfSextets (sextetsOfBytes bytes) = bytes := by
  have hback : ∀ (b : UInt8) (n : Nat), n = b.toNat → UInt8.ofNat n = b := by
    rintro b _ rfl
    exact UInt8.ofNat_toNat
  fun_induction sextetsOfBytes bytes with
  | case1 a b c rest ih =>
      have ha := uint8_toNat_lt a
      have hb := uint8_toNat_lt b
      have hc := uint8_toNat_lt c
      rw [bytesOfSextets, ih, hback a _ (by omega), hback b _ (by omega), hback c _ (by omega)]
  | case2 a b =>
      have ha := uint8_toNat_lt a
      have hb := uint8_toNat_lt b
      rw [bytesOfSextets, hback a _ (by omega), hback b _ (by omega)]
  | case3 a =>
      have ha := uint8_toNat_lt a
      rw [bytesOfSextets, hback a _ (by omega)]
  | case4 => rfl

theorem bytesOfBase64_base64OfBytes (bytes : Bytes) :
    bytesOfBase64 (base64OfBytes bytes) = bytes := by
  have hlt := sextet_lt bytes
  have hpad : ∀ n, (List.replicate n '=').takeWhile (fun c => decide (c ≠ '=')) = [] := by
    intro n
    cases n with
    | zero => rfl
    | succ n => rfl
  have hdigits : ((sextetsOfBytes bytes).map base64Digit).filterMap base64Value =
      sextetsOfBytes bytes := by
    rw [List.filterMap_map]
    conv_rhs => rw [← List.filterMap_some (l := sextetsOfBytes bytes)]
    exact List.filterMap_congr fun n hn => base64Value_digit n (hlt n hn)
  rw [bytesOfBase64, base64OfBytes, List.takeWhile_append_of_pos, hpad, List.append_nil, hdigits,
    bytesOfSextets_sextets]
  intro c hc
  obtain ⟨n, hn, rfl⟩ := List.mem_map.1 hc
  simpa using base64Digit_ne_pad n (hlt n hn)

end PiWorkflows
