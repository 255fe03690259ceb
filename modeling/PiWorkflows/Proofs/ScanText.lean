import PiWorkflows.Proofs.ValueText
import PiWorkflows.Workflows.JsonText

/-!
# The scan of printed data

The scan for a balanced part follows printed data: inside a string nothing but
its closing quote ends the string, and outside strings a value closes what it
opened. So behind an open bracket a printed value only takes the scan further
(`passed_chars`), and the scan of a printed object or array returns it, whatever
stands behind it (`scanBalanced_chars`).
-/

namespace PiWorkflows

/-- The scan takes this text and is where it was. -/
def Passed (stack : List Char) (inString : Bool) (text : List Char) : Prop :=
  ∀ rest, scanFrom stack inString false (text ++ rest) =
    (scanFrom stack inString false rest).map (text ++ ·)

theorem Passed.nil {stack : List Char} {inString : Bool} : Passed stack inString [] := fun rest => by
  rw [List.nil_append]
  exact Option.map_id'.symm

theorem Passed.append {stack text text' : List Char} {inString : Bool}
    (h : Passed stack inString text) (h' : Passed stack inString text') :
    Passed stack inString (text ++ text') := by
  intro rest
  rw [List.append_assoc, h, h', Option.map_map]
  exact congrArg (fun f => Option.map f (scanFrom stack inString false rest))
    (funext fun more => (List.append_assoc text text' more).symm)

theorem Passed.cons {stack text : List Char} {inString : Bool} {c : Char}
    (h : Passed stack inString [c]) (h' : Passed stack inString text) :
    Passed stack inString (c :: text) :=
  h.append h'

/-! ## Strings -/

theorem passed_char (stack : List Char) {c : Char} (hquote : c ≠ '"') (hback : c ≠ '\\') :
    Passed stack true [c] := by
  intro rest
  rw [List.singleton_append, scanFrom]
  simp only [if_neg hback, if_neg hquote, if_true, Bool.false_eq_true, if_false]
  rfl

theorem passed_escape (stack : List Char) (d : Char) : Passed stack true ['\\', d] := by
  intro rest
  rw [List.cons_append, List.singleton_append, scanFrom]
  simp only [if_true, Bool.false_eq_true, if_false]
  rw [scanFrom]
  simp only [if_true, Option.map_map]
  rfl

theorem hexDigit_plain {n : Nat} (h : n < 16) : hexDigit n ≠ '"' ∧ hexDigit n ≠ '\\' := by
  revert h
  revert n
  decide

theorem passed_hexDigit (stack : List Char) {n : Nat} (h : n < 16) :
    Passed stack true [hexDigit n] :=
  passed_char stack (hexDigit_plain h).1 (hexDigit_plain h).2

theorem passed_escapeChar (stack : List Char) (c : Char) : Passed stack true (escapeChar c) := by
  unfold escapeChar
  split
  · exact passed_escape stack _
  split
  · exact passed_escape stack _
  split
  · exact passed_escape stack _
  split
  · exact passed_escape stack _
  split
  · exact passed_escape stack _
  split
  · exact passed_escape stack _
  split
  · exact passed_escape stack _
  split
  · next h =>
      have hzero : Passed stack true ['0'] := passed_char stack (by decide) (by decide)
      exact (passed_escape stack 'u').append (hzero.cons (hzero.cons
        ((passed_hexDigit stack (by omega)).cons (passed_hexDigit stack (by omega)))))
  · next hquote hback _ _ _ _ _ _ => exact passed_char stack hquote hback

theorem passed_quoteUnit (stack : List Char) (u : UInt16) : Passed stack true (quoteUnit u) := by
  unfold quoteUnit
  split
  · have hdigit : ∀ n, Passed stack true [hexDigit (n % 16)] := fun n =>
      passed_hexDigit stack (Nat.mod_lt n (by decide))
    exact (passed_escape stack 'u').append
      ((hdigit _).cons ((hdigit _).cons ((hdigit _).cons (hdigit _))))
  · exact passed_escapeChar stack _

theorem passed_quoteUnits (stack : List Char) (s : CodeUnits) :
    Passed stack true (quoteUnits s) := by
  fun_induction quoteUnits s with
  | case1 => exact Passed.nil
  | case2 u => exact passed_quoteUnit stack u
  | case3 u v rest hpair ih =>
      rw [Bool.and_eq_true] at hpair
      exact (passed_char stack (pairChar_ne hpair.1 hpair.2 (by decide))
        (pairChar_ne hpair.1 hpair.2 (by decide))).cons ih
  | case4 u v rest hpair ih => exact (passed_quoteUnit stack u).append ih

/-- A string literal is passed as a whole. -/
theorem passed_literal (stack : List Char) (s : CodeUnits) : Passed stack false (literal s) := by
  intro rest
  rw [literal, List.cons_append, List.append_assoc, List.singleton_append, scanFrom]
  simp only [Bool.false_eq_true, if_false, if_true]
  rw [passed_quoteUnits stack s, scanFrom]
  simp only [Bool.false_eq_true, if_false, if_true, Option.map_map, if_neg (by decide : ¬ '"' = '\\')]
  exact congrArg (fun f => Option.map f (scanFrom stack false false rest))
    (funext fun more => by simp)

/-! ## Values -/

theorem passed_plain (stack : List Char) {c : Char} (hquote : c ≠ '"')
    (hopen : isOpening c = false) (hclose : isClosing c = false) : Passed stack false [c] := by
  intro rest
  rw [List.singleton_append, scanFrom]
  simp only [Bool.false_eq_true, if_false, if_neg hquote, hopen, hclose, Bool.not_false, if_true]
  rfl

theorem passed_numeral (stack : List Char) {text : List Char}
    (h : ∀ c ∈ text, isNumeralChar c = true) : Passed stack false text := by
  induction text with
  | nil => exact Passed.nil
  | cons c text ih =>
      obtain ⟨hc, htext⟩ := List.forall_mem_cons.1 h
      have hne : ∀ d, isNumeralChar d = false → c ≠ d := by
        rintro d hd rfl
        rw [hc] at hd
        cases hd
      refine (passed_plain stack (hne _ (by decide)) ?_ ?_).cons (ih htext)
      · simp [isOpening, hne _ (by decide : isNumeralChar '\x7b' = false),
          hne _ (by decide : isNumeralChar '[' = false)]
      · simp [isClosing, hne _ (by decide : isNumeralChar '\x7d' = false),
          hne _ (by decide : isNumeralChar ']' = false)]

/-- The brackets around what the scan passes behind the opening one. -/
structure Brackets (opening closing : Char) : Prop where
  opens : isOpening opening = true
  opening_ne : opening ≠ '"'
  closes : ∀ stack, closes (opening :: stack) closing = true
  closing_ne : closing ≠ '"'
  closing_opens : isOpening closing = false
  closing_closes : isClosing closing = true

theorem squareBrackets : Brackets '[' ']' :=
  ⟨by decide, by decide, fun _ => rfl, by decide, by decide, by decide⟩

theorem curlyBrackets : Brackets '\x7b' '\x7d' :=
  ⟨by decide, by decide, fun _ => rfl, by decide, by decide, by decide⟩

section

variable {stack inner : List Char} {opening closing : Char}

theorem scanFrom_opening (hb : Brackets opening closing) (text : List Char) :
    scanFrom stack false false (opening :: text) =
      (scanFrom (opening :: stack) false false text).map fun rest => opening :: rest := by
  rw [scanFrom]
  simp only [Bool.false_eq_true, if_false, if_neg hb.opening_ne, hb.opens, if_true]

theorem scanFrom_closing (hb : Brackets opening closing) (text : List Char) :
    scanFrom (opening :: stack) false false (closing :: text) =
      (if stack.isEmpty then some [] else scanFrom stack false false text).map
        fun rest => closing :: rest := by
  rw [scanFrom]
  simp only [Bool.false_eq_true, if_false, if_neg hb.closing_ne, hb.closing_opens,
    hb.closing_closes, hb.closes stack, Bool.not_true, List.tail_cons]
  rfl

theorem passed_brackets (hb : Brackets opening closing) (hstack : stack ≠ [])
    (hinner : Passed (opening :: stack) false inner) :
    Passed stack false (opening :: (inner ++ [closing])) := by
  intro rest
  have hsome : stack.isEmpty = false := by simpa using hstack
  rw [List.cons_append, List.append_assoc, List.singleton_append, scanFrom_opening hb, hinner,
    scanFrom_closing hb, hsome]
  simp only [Bool.false_eq_true, if_false, Option.map_map]
  exact congrArg (fun f => Option.map f (scanFrom stack false false rest))
    (funext fun more => by simp)

/-- The scan ends at the bracket that closes the first one. -/
theorem scanBalanced_brackets (hb : Brackets opening closing)
    (hinner : Passed [opening] false inner) (rest : List Char) :
    scanBalanced (opening :: (inner ++ [closing]) ++ rest) =
      some (opening :: (inner ++ [closing])) := by
  rw [scanBalanced, List.cons_append, List.append_assoc, List.singleton_append,
    scanFrom_opening hb, hinner, scanFrom_closing hb]
  rfl

end

theorem passed_colon (stack : List Char) : Passed stack false [':'] :=
  passed_plain stack (by decide) (by decide) (by decide)

theorem passed_comma (stack : List Char) : Passed stack false [','] :=
  passed_plain stack (by decide) (by decide) (by decide)

mutual

/-- Behind an open bracket a printed value is passed. -/
theorem passed_chars (t : JsTree) {stack : List Char} (hstack : stack ≠ []) :
    Passed stack false t.chars := by
  have hplain : ∀ c ∈ ['n', 'u', 'l', 't', 'r', 'e', 'f', 'a', 's'], Passed stack false [c] := by
    intro c hc
    have hall : (['n', 'u', 'l', 't', 'r', 'e', 'f', 'a', 's'].all fun c =>
        c != '"' && (!isOpening c && !isClosing c)) = true := by decide
    have hletter := List.all_eq_true.1 hall c hc
    rw [Bool.and_eq_true, Bool.and_eq_true, bne_iff_ne, Bool.not_eq_true', Bool.not_eq_true']
      at hletter
    exact passed_plain stack hletter.1 hletter.2.1 hletter.2.2
  cases t with
  | null =>
      exact (hplain 'n' (by decide)).cons ((hplain 'u' (by decide)).cons
        ((hplain 'l' (by decide)).cons (hplain 'l' (by decide))))
  | bool b =>
      cases b with
      | true =>
          exact (hplain 't' (by decide)).cons ((hplain 'r' (by decide)).cons
            ((hplain 'u' (by decide)).cons (hplain 'e' (by decide))))
      | false =>
          exact (hplain 'f' (by decide)).cons ((hplain 'a' (by decide)).cons
            ((hplain 'l' (by decide)).cons ((hplain 's' (by decide)).cons
              (hplain 'e' (by decide)))))
  | num n =>
      rw [JsTree.chars]
      exact passed_numeral stack n.all_numeral
  | str s =>
      rw [JsTree.chars]
      exact passed_literal stack s
  | arr items =>
      rw [JsTree.chars]
      exact passed_brackets squareBrackets hstack (passed_items items (List.cons_ne_nil _ _))
  | obj members =>
      rw [JsTree.chars]
      exact passed_brackets curlyBrackets hstack (passed_members members (List.cons_ne_nil _ _))

theorem passed_items (items : List JsTree) {stack : List Char} (hstack : stack ≠ []) :
    Passed stack false (itemsChars items) := by
  cases items with
  | nil => exact Passed.nil
  | cons x rest =>
      have hx := passed_chars x hstack
      cases rest with
      | nil => exact hx
      | cons y rest =>
          rw [itemsChars]
          exact hx.append ((passed_comma stack).cons (passed_items (y :: rest) hstack))

theorem passed_members (members : List (CodeUnits × JsTree)) {stack : List Char}
    (hstack : stack ≠ []) : Passed stack false (membersChars members) := by
  cases members with
  | nil => exact Passed.nil
  | cons e rest =>
      obtain ⟨k, x⟩ := e
      have hx := passed_chars x hstack
      have hname := passed_literal stack k
      cases rest with
      | nil =>
          rw [membersChars]
          exact hname.append ((passed_colon stack).cons hx)
      | cons e rest =>
          rw [membersChars]
          exact hname.append ((passed_colon stack).cons (hx.append
            ((passed_comma stack).cons (passed_members (e :: rest) hstack))))

end

/-- Objects and arrays. -/
def JsTree.isContainer : JsTree → Bool
  | .arr _ | .obj _ => true
  | _ => false

theorem scanBalanced_chars {t : JsTree} (h : t.isContainer = true) (rest : List Char) :
    scanBalanced (t.chars ++ rest) = some t.chars := by
  cases t with
  | arr items =>
      rw [JsTree.chars]
      exact scanBalanced_brackets squareBrackets (passed_items items (List.cons_ne_nil _ _)) rest
  | obj members =>
      rw [JsTree.chars]
      exact scanBalanced_brackets curlyBrackets (passed_members members (List.cons_ne_nil _ _)) rest
  | _ => cases h

end PiWorkflows
