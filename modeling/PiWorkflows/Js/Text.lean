import Mathlib.Algebra.GroupWithZero.Nat
import Mathlib.Logic.Basic

/-!
# Texts cut at a separator

`split` and `join` on strings, over the list operations of the same names. A
qualified node id is a text of segments, and what the program needs of it is
that joining undoes splitting and that the last segment can be read off.
-/

namespace PiWorkflows

/-- `text.split(sep)` for a separator of one character. -/
def splitText (sep : Char) (text : String) : List String :=
  (text.toList.splitOn sep).map String.ofList

/-- `parts.join(sep)`. -/
def joinText (sep : Char) (parts : List String) : String :=
  String.ofList ([sep].intercalate (parts.map String.toList))

/-- `Buffer.byteLength(text, "utf8")`. -/
def byteLength (text : String) : Nat :=
  (text.toList.map Char.utf8Size).sum

/-- `text.length`: a character beyond the basic plane takes two code units. -/
def utf16Length (text : String) : Nat :=
  (text.toList.map fun c => if c.toNat < 0x10000 then 1 else 2).sum

/-- What `trim` takes off: white space and line terminators. -/
def isTrimmed (c : Char) : Bool :=
  c.toNat ∈ [0x9, 0xA, 0xB, 0xC, 0xD, 0x20, 0xA0, 0x1680, 0x2028, 0x2029, 0x202F, 0x205F, 0x3000,
    0xFEFF] || (0x2000 ≤ c.toNat && c.toNat ≤ 0x200A)

/-- `text.trim().length === 0`. -/
def isBlank (text : String) : Bool :=
  text.toList.all isTrimmed

/-- `[0-9a-f]`. -/
def isHexDigit (c : Char) : Bool :=
  c.isDigit || ('a' ≤ c && c ≤ 'f')

/-- A text is cut at its first separator in one way. -/
theorem cut_inj {sep : Char} {left left' right right' : List Char} (h : sep ∉ left)
    (h' : sep ∉ left') (heq : left ++ sep :: right = left' ++ sep :: right') :
    left = left' ∧ right = right' := by
  induction left generalizing left' with
  | nil =>
      cases left' with
      | nil => exact ⟨rfl, (List.cons.inj heq).2⟩
      | cons c rest => exact absurd (List.cons.inj heq).1 fun hc => h' (hc ▸ List.mem_cons_self)
  | cons c rest ih =>
      cases left' with
      | nil => exact absurd (List.cons.inj heq).1 fun hc => h (hc ▸ List.mem_cons_self)
      | cons c' rest' =>
          obtain ⟨rfl, htail⟩ := List.cons.inj heq
          obtain ⟨rfl, hright⟩ := ih (fun hmem => h (List.mem_cons_of_mem _ hmem))
            (fun hmem => h' (List.mem_cons_of_mem _ hmem)) htail
          exact ⟨rfl, hright⟩

theorem joinText_splitText (sep : Char) (text : String) :
    joinText sep (splitText sep text) = text := by
  have hparts : (splitText sep text).map String.toList = text.toList.splitOn sep := by
    rw [splitText, List.map_map]
    exact List.map_id'' (fun _ => String.toList_ofList) _
  rw [joinText, hparts, List.intercalate_splitOn, String.ofList_toList]

theorem splitText_of_notMem {sep : Char} {text : String} (h : sep ∉ text.toList) :
    splitText sep text = [text] := by
  rw [splitText, List.splitOn_eq_singleton h]
  simp

/-- Splitting works on both sides of a separator on its own. -/
theorem splitText_append (sep : Char) (left right : String) :
    splitText sep (left ++ String.singleton sep ++ right) =
      splitText sep left ++ splitText sep right := by
  have hlist : (left ++ String.singleton sep ++ right).toList =
      left.toList ++ sep :: right.toList := by
    simp [String.toList_append]
  rw [splitText, hlist, List.splitOn_append_cons_self, List.map_append]
  rfl

/-- A number is determined by its decimal. -/
theorem natRepr_inj {n m : Nat} (h : n.repr = m.repr) : n = m := by
  have hvalue : ∀ k : Nat, Nat.ofDigitChars 10 k.repr.toList 0 = k := by
    intro k
    rw [Nat.toList_repr, Nat.ofDigitChars_ten_toDigits]
  rw [← hvalue n, h, hvalue m]

end PiWorkflows
