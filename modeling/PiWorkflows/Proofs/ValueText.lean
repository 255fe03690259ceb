import PiWorkflows.Js.Value
import PiWorkflows.Proofs.ParseText

/-!
# JSON data is read back from its text

`JSON.parse` gives back the data that `JSON.stringify` printed, code unit by
code unit, provided an object lists its members as objects enumerate them
(`parse_text`). So no two such data have one text (`text_inj`).

The shape is that of the proof for `Json`: the text behind a value is arbitrary
except that a number must end before it, the fuel is more than the length of
what is still to be read, and the induction is on the data.
-/

namespace PiWorkflows

/-! ## The order of members -/

theorem arrayIndex_eq {key : CodeUnits} {n : Nat} (h : arrayIndex key = some n) :
    key = units n.repr := by
  simp only [arrayIndex] at h
  split at h
  · next heq => cases h; exact heq.1
  · cases h

theorem perm_enumerated {α : Type} (members : List (CodeUnits × α)) :
    (enumerated members).Perm members := by
  have hparts : (members.filter fun e => (arrayIndex e.1).isNone) =
      members.filter fun e => !(arrayIndex e.1).isSome :=
    List.filter_congr fun e _ => by cases arrayIndex e.1 <;> rfl
  rw [enumerated, hparts]
  exact ((List.perm_insertionSort _ _).append_right _).trans (List.filter_append_perm _ _)

theorem filter_isSome_enumerated {α : Type} (members : List (CodeUnits × α)) :
    (enumerated members).filter (fun e => (arrayIndex e.1).isSome) =
      (members.filter fun e => (arrayIndex e.1).isSome).insertionSort
        (fun e f => (arrayIndex e.1).getD 0 ≤ (arrayIndex f.1).getD 0) := by
  rw [enumerated, List.filter_append]
  have hindices : ∀ e ∈ (members.filter fun e => (arrayIndex e.1).isSome).insertionSort
      (fun e f => (arrayIndex e.1).getD 0 ≤ (arrayIndex f.1).getD 0),
      (arrayIndex e.1).isSome = true := fun e he =>
    (List.mem_filter.1 ((List.perm_insertionSort _ _).mem_iff.1 he)).2
  have hothers : (members.filter fun e => (arrayIndex e.1).isNone).filter
      (fun e => (arrayIndex e.1).isSome) = [] := by
    rw [List.filter_filter, List.filter_eq_nil_iff]
    intro e _
    cases arrayIndex e.1 <;> simp
  rw [List.filter_eq_self.2 hindices, hothers, List.append_nil]

theorem filter_isNone_enumerated {α : Type} (members : List (CodeUnits × α)) :
    (enumerated members).filter (fun e => (arrayIndex e.1).isNone) =
      members.filter fun e => (arrayIndex e.1).isNone := by
  rw [enumerated, List.filter_append, List.filter_filter, List.filter_eq_nil_iff.2]
  · simp
  · intro e he
    have hindex := (List.mem_filter.1 ((List.perm_insertionSort _ _).mem_iff.1 he)).2
    cases hkey : arrayIndex e.1 <;> simp_all

/-- An object enumerates what it enumerates in that order again. -/
theorem enumerated_enumerated {α : Type} (members : List (CodeUnits × α)) :
    enumerated (enumerated members) = enumerated members := by
  have hsorted := List.pairwise_insertionSort
    (fun e f : CodeUnits × α => (arrayIndex e.1).getD 0 ≤ (arrayIndex f.1).getD 0)
    (members.filter fun e => (arrayIndex e.1).isSome)
  rw [enumerated, filter_isSome_enumerated, filter_isNone_enumerated, hsorted.insertionSort_eq,
    enumerated]

theorem fromEntries_of_nodup {α : Type} {entries : List (CodeUnits × α)}
    (h : (entries.map Prod.fst).Nodup) : fromEntries entries = enumerated entries := by
  rw [fromEntries, Assoc.foldl_setKey (by simpa using h)]
  rfl

mutual

/-- Every object lists each of its names once and in the order of enumeration. -/
def JsTree.Proper : JsTree → Prop
  | .arr items => properTrees items
  | .obj members =>
      (members.map Prod.fst).Nodup ∧ enumerated members = members ∧ properEntries members
  | _ => True

def properTrees : List JsTree → Prop
  | [] => True
  | x :: xs => x.Proper ∧ properTrees xs

def properEntries : List (CodeUnits × JsTree) → Prop
  | [] => True
  | (_, x) :: rest => x.Proper ∧ properEntries rest

end

theorem properTrees_iff {items : List JsTree} : properTrees items ↔ ∀ x ∈ items, x.Proper := by
  induction items with
  | nil => simp [properTrees]
  | cons x xs ih => rw [properTrees, ih, List.forall_mem_cons]

theorem properEntries_iff {members : List (CodeUnits × JsTree)} :
    properEntries members ↔ ∀ e ∈ members, e.2.Proper := by
  induction members with
  | nil => simp [properEntries]
  | cons e rest ih =>
      obtain ⟨k, x⟩ := e
      rw [properEntries, ih, List.forall_mem_cons]

/-! ## String literals -/

theorem readUnit_hexUnit {n : Nat} (h : n < 0x10000) (rest : List Char) :
    readUnit (hexUnit n ++ rest) = some (n, rest) := by
  have hsum : ((n / 4096 % 16 * 16 + n / 256 % 16) * 16 + n / 16 % 16) * 16 + n % 16 = n := by
    omega
  show readUnit (hexDigit (n / 4096 % 16) :: hexDigit (n / 256 % 16) :: hexDigit (n / 16 % 16) ::
    hexDigit (n % 16) :: rest) = _
  rw [readUnit, readHexDigit_hexDigit (Nat.mod_lt _ (by decide)),
    readHexDigit_hexDigit (Nat.mod_lt _ (by decide)),
    readHexDigit_hexDigit (Nat.mod_lt _ (by decide)),
    readHexDigit_hexDigit (Nat.mod_lt _ (by decide))]
  show some (((n / 4096 % 16 * 16 + n / 256 % 16) * 16 + n / 16 % 16) * 16 + n % 16, rest) = _
  rw [hsum]

/-- An escape names one code unit. -/
theorem readUnits_escape (escape : List Char) {rest : List Char} {u : UInt16}
    (h : readEscapedUnit (escape ++ rest) = some (u, rest)) (fuel : Nat) :
    readUnits (fuel + 1) ('\\' :: (escape ++ rest)) =
      (readUnits fuel rest).map fun r => (u :: r.1, r.2) := by
  rw [readUnits, if_neg (by decide), if_pos rfl, h]
  show ((readUnits fuel rest).bind fun r => some (u :: r.1, r.2)) = _
  cases readUnits fuel rest <;> rfl

/-- A character that needs no escape stands for the units that encode it. -/
theorem readUnits_char {c : Char} (hquote : c ≠ '"') (hback : c ≠ '\\') (hprint : ¬c.toNat < 0x20)
    (fuel : Nat) (rest : List Char) :
    readUnits (fuel + 1) (c :: rest) =
      (readUnits fuel rest).map fun r => (encodeChar c ++ r.1, r.2) := by
  rw [readUnits, if_neg hquote, if_neg hback, if_neg hprint]
  cases readUnits fuel rest <;> rfl

theorem unit_of_char {u : UInt16} {c : Char} (hc : encodeChar c = [u]) {v : UInt16}
    (hv : encodeChar c = [v]) : v = u := by
  rw [hc] at hv
  exact (List.cons.inj hv).1.symm

/-- A unit that is no surrogate is read back from how its character is written. -/
theorem readUnits_escapeChar {u : UInt16} {c : Char} (hc : encodeChar c = [u]) (fuel : Nat)
    (rest : List Char) :
    readUnits (fuel + 1) (escapeChar c ++ rest) =
      (readUnits fuel rest).map fun r => (u :: r.1, r.2) := by
  unfold escapeChar
  split
  · next h => subst h; rw [← unit_of_char hc rfl]; exact readUnits_escape ['"'] rfl fuel
  split
  · next h => subst h; rw [← unit_of_char hc rfl]; exact readUnits_escape ['\\'] rfl fuel
  split
  · next h => subst h; rw [← unit_of_char hc rfl]; exact readUnits_escape ['n'] rfl fuel
  split
  · next h => subst h; rw [← unit_of_char hc rfl]; exact readUnits_escape ['r'] rfl fuel
  split
  · next h => subst h; rw [← unit_of_char hc rfl]; exact readUnits_escape ['t'] rfl fuel
  split
  · next h =>
      have hchar : c = Char.ofNat 8 := by rw [← h, Char.ofNat_toNat]
      subst hchar
      rw [← unit_of_char hc rfl]
      exact readUnits_escape ['b'] rfl fuel
  split
  · next h =>
      have hchar : c = Char.ofNat 12 := by rw [← h, Char.ofNat_toNat]
      subst hchar
      rw [← unit_of_char hc rfl]
      exact readUnits_escape ['f'] rfl fuel
  split
  · next h =>
      have hunit : UInt16.ofNat c.toNat = u := by
        rw [encodeChar, if_pos (by omega)] at hc
        exact (List.cons.inj hc).1
      have hsum : ((0 * 16 + 0) * 16 + c.toNat / 16) * 16 + c.toNat % 16 = c.toNat := by omega
      refine readUnits_escape
        ['u', '0', '0', hexDigit (c.toNat / 16), hexDigit (c.toNat % 16)] ?_ fuel
      have hread : readUnit ('0' :: '0' :: hexDigit (c.toNat / 16) :: hexDigit (c.toNat % 16) ::
          rest) = some (c.toNat, rest) := by
        rw [readUnit, readHexDigit_hexDigit (by omega), readHexDigit_hexDigit (by omega)]
        show some (((0 * 16 + 0) * 16 + c.toNat / 16) * 16 + c.toNat % 16, rest) = _
        rw [hsum]
      show (readUnit ('0' :: '0' :: hexDigit (c.toNat / 16) :: hexDigit (c.toNat % 16) ::
        rest)).map (fun r => (UInt16.ofNat r.1, r.2)) = _
      rw [hread, Option.map_some, hunit]
  · next hquote hback _ _ _ _ _ hprint =>
      show readUnits (fuel + 1) (c :: rest) = _
      rw [readUnits_char hquote hback hprint, hc]
      rfl

theorem readUnits_quoteUnit (u : UInt16) (fuel : Nat) (rest : List Char) :
    readUnits (fuel + 1) (quoteUnit u ++ rest) =
      (readUnits fuel rest).map fun r => (u :: r.1, r.2) := by
  unfold quoteUnit
  split
  · refine readUnits_escape ('u' :: hexUnit u.toNat) ?_ fuel
    show (readUnit (hexUnit u.toNat ++ rest)).map (fun r => (UInt16.ofNat r.1, r.2)) = _
    rw [readUnit_hexUnit u.toNat_lt, Option.map_some, UInt16.ofNat_toNat]
  · next h => exact readUnits_escapeChar (encodeChar_unitChar (by simpa using h)) fuel rest

theorem pairChar_ne {u v : UInt16} (hu : isLeadSurrogate u = true)
    (hv : isTrailSurrogate v = true) {d : Char} (hd : d.toNat < 0x10000) : pairChar u v ≠ d := by
  intro h
  have hencode := encodeChar_pairChar hu hv
  rw [h, encodeChar, if_pos hd] at hencode
  exact absurd (congrArg List.length hencode) (by simp)

theorem readUnits_pairChar {u v : UInt16} (hu : isLeadSurrogate u = true)
    (hv : isTrailSurrogate v = true) (fuel : Nat) (rest : List Char) :
    readUnits (fuel + 1) (pairChar u v :: rest) =
      (readUnits fuel rest).map fun r => (u :: v :: r.1, r.2) := by
  have hencode := encodeChar_pairChar hu hv
  have hprint : ¬(pairChar u v).toNat < 0x20 := fun h =>
    pairChar_ne hu hv (Nat.lt_trans h (by decide)) rfl
  rw [readUnits_char (pairChar_ne hu hv (by decide)) (pairChar_ne hu hv (by decide)) hprint,
    hencode]
  rfl

theorem quoteUnit_head (u : UInt16) : ∃ d ds, quoteUnit u = d :: ds := by
  unfold quoteUnit
  split
  · exact ⟨_, _, rfl⟩
  · obtain ⟨d, ds, hd, _⟩ := escapeChar_head (unitChar u)
    exact ⟨d, ds, hd⟩

/-- Every step of the reader takes at least one character. -/
theorem readUnits_quoted {s : CodeUnits} {fuel : Nat} (hfuel : (quoteUnits s).length < fuel)
    (rest : List Char) : readUnits fuel (quoteUnits s ++ '"' :: rest) = some (s, rest) := by
  obtain ⟨fuel, rfl⟩ := Nat.exists_eq_add_one_of_ne_zero (by omega : fuel ≠ 0)
  fun_induction quoteUnits s generalizing fuel with
  | case1 => rw [List.nil_append, readUnits, if_pos rfl]
  | case2 u =>
      obtain ⟨d, ds, hd⟩ := quoteUnit_head u
      rw [hd, List.length_cons] at hfuel
      obtain ⟨fuel, rfl⟩ := Nat.exists_eq_add_one_of_ne_zero (by omega : fuel ≠ 0)
      rw [readUnits_quoteUnit, readUnits, if_pos rfl]
      rfl
  | case3 u v more hpair ih =>
      rw [List.length_cons] at hfuel
      obtain ⟨fuel, rfl⟩ := Nat.exists_eq_add_one_of_ne_zero (by omega : fuel ≠ 0)
      rw [Bool.and_eq_true] at hpair
      rw [List.cons_append, readUnits_pairChar hpair.1 hpair.2, ih fuel (by omega)]
      rfl
  | case4 u v more hpair ih =>
      obtain ⟨d, ds, hd⟩ := quoteUnit_head u
      rw [List.length_append, hd, List.length_cons] at hfuel
      obtain ⟨fuel, rfl⟩ := Nat.exists_eq_add_one_of_ne_zero (by omega : fuel ≠ 0)
      rw [List.append_assoc, readUnits_quoteUnit, ih fuel (by omega)]
      rfl

theorem readUnits_literal {s : CodeUnits} {fuel : Nat} (hfuel : (literal s).length ≤ fuel)
    (rest : List Char) :
    readUnits fuel ((quoteUnits s ++ ['"']) ++ rest) = some (s, rest) := by
  rw [literal, List.length_cons, List.length_append, List.length_singleton] at hfuel
  rw [List.append_assoc]
  exact readUnits_quoted (by omega) rest

/-! ## Values -/

/-- The kind character of JSON data. -/
def JsTree.kind : JsTree → Char
  | .null => 'n'
  | .bool true => 't'
  | .bool false => 'f'
  | .num _ => '0'
  | .str _ => '"'
  | .arr _ => '['
  | .obj _ => '\x7b'

theorem chars_head (t : JsTree) : ∃ c cs, t.chars = c :: cs ∧ kindChar c = t.kind := by
  cases t with
  | null => exact ⟨_, _, by rw [JsTree.chars], by decide⟩
  | bool b => cases b <;> exact ⟨_, _, by rw [JsTree.chars], by decide⟩
  | num n =>
      obtain ⟨c, cs, hchars, hkind⟩ := stringifyChars_head (.num n)
      rw [stringifyChars] at hchars
      exact ⟨c, cs, by rw [JsTree.chars, hchars], hkind⟩
  | str s => exact ⟨_, _, by rw [JsTree.chars, literal], rfl⟩
  | arr items => exact ⟨_, _, by rw [JsTree.chars], rfl⟩
  | obj members => exact ⟨_, _, by rw [JsTree.chars], rfl⟩

theorem JsTree.kind_ne {c : Char} (hc : c ∉ ['n', 't', 'f', '0', '"', '[', '\x7b'])
    (t : JsTree) : t.kind ≠ c := by
  rintro rfl
  cases t with
  | bool b => cases b <;> exact hc (by decide)
  | _ => exact hc (by simp [JsTree.kind])

/-- Printed data starts with no space and no closing bracket. -/
theorem JsTree.printed_head (t : JsTree) (rest : List Char) :
    skipSpace (t.chars ++ rest) = t.chars ++ rest ∧ ∀ tail, t.chars ++ rest ≠ ']' :: tail := by
  obtain ⟨c, cs, ht, hc⟩ := chars_head t
  rw [ht, List.cons_append]
  constructor
  · refine skipSpace_cons ?_
    by_contra hspace
    rw [Bool.not_eq_false, isJsonSpace, Bool.or_eq_true, Bool.or_eq_true,
      Bool.or_eq_true] at hspace
    simp only [beq_iff_eq] at hspace
    rcases hspace with ((rfl | rfl) | rfl) | rfl
    all_goals exact JsTree.kind_ne (by decide) t hc.symm
  · intro tail h
    rw [(List.cons.inj h).1] at hc
    exact JsTree.kind_ne (by decide) t hc.symm

theorem readNumeral_printed (n : JsNumber) {rest : List Char} (hrest : Delimited rest) :
    readNumeral (n.text.toList ++ rest) = some (.num n, rest) := by
  have htake := takeWhile_numeral n.all_numeral hrest
  have hdrop : (n.text.toList ++ rest).dropWhile isNumeralChar = rest := by
    have hsplit := List.takeWhile_append_dropWhile (p := isNumeralChar) (l := n.text.toList ++ rest)
    rw [htake] at hsplit
    exact List.append_cancel_left hsplit
  unfold readNumeral
  rw [hdrop]
  simp only [htake, String.ofList_toList]
  rw [dif_pos n.numeral]

theorem readTree_null (fuel : Nat) (rest : List Char) :
    readTree (fuel + 1) (JsTree.null.chars ++ rest) = some (.null, rest) := by
  rw [readTree, (JsTree.printed_head .null rest).1, JsTree.chars]
  rfl

theorem readTree_bool (b : Bool) (fuel : Nat) (rest : List Char) :
    readTree (fuel + 1) ((JsTree.bool b).chars ++ rest) = some (.bool b, rest) := by
  rw [readTree, (JsTree.printed_head (.bool b) rest).1]
  cases b <;> rw [JsTree.chars] <;> rfl

theorem readTree_number (n : JsNumber) (fuel : Nat) {rest : List Char} (hrest : Delimited rest) :
    readTree (fuel + 1) ((JsTree.num n).chars ++ rest) = some (.num n, rest) := by
  obtain ⟨c, cs, hchars, hkind⟩ := chars_head (.num n)
  have hread := readNumeral_printed n hrest
  rw [JsTree.chars] at hchars
  have hdigit : (c.isDigit || c == '-') = true := by
    by_contra hother
    have hne : c = '0' := by
      rw [kindChar, if_neg hother] at hkind
      exact hkind
    subst hne
    exact hother rfl
  rw [readTree, (JsTree.printed_head (.num n) rest).1, JsTree.chars]
  rw [hchars, List.cons_append] at hread ⊢
  -- A digit or a sign is none of the characters another value starts with.
  split
  all_goals first
    | exact hread
    | (next heq =>
        rw [(List.cons.inj heq).1] at hdigit
        exact absurd hdigit (by decide))

theorem readTree_string (s : CodeUnits) {fuel : Nat} (hfuel : (literal s).length ≤ fuel)
    (rest : List Char) :
    readTree (fuel + 1) ((JsTree.str s).chars ++ rest) = some (.str s, rest) := by
  rw [readTree, (JsTree.printed_head (.str s) rest).1, JsTree.chars]
  show ((readUnits fuel ((quoteUnits s ++ ['"']) ++ rest)).bind
    fun r => some (JsTree.str r.1, r.2)) = _
  rw [readUnits_literal hfuel, Option.bind_some]

/-- What is read behind the opening bracket of an array. -/
def treeItemsFrom (read : List Char → Option (List JsTree × List Char)) :
    List Char → Option (JsTree × List Char)
  | ']' :: rest => some (.arr [], rest)
  | rest => (read rest).bind fun r => some (.arr r.1, r.2)

theorem readTree_items {fuel : Nat} {text rest : List Char} {items : List JsTree}
    (hspace : skipSpace text = text) (hhead : ∀ tail, text ≠ ']' :: tail)
    (h : readTreeItems fuel text = some (items, rest)) :
    readTree (fuel + 1) ('[' :: text) = some (.arr items, rest) := by
  rw [readTree, skipSpace_cons (by decide)]
  show treeItemsFrom (readTreeItems fuel) (skipSpace text) = _
  rw [hspace, treeItemsFrom, h, Option.bind_some]
  exact hhead

theorem readTree_members {fuel : Nat} {text rest : List Char}
    {members : List (CodeUnits × JsTree)}
    (h : readTreeMembers fuel ('"' :: text) = some (members, rest)) :
    readTree (fuel + 1) ('\x7b' :: '"' :: text) = some (.obj (fromEntries members), rest) := by
  rw [readTree, skipSpace_cons (by decide)]
  show ((readTreeMembers fuel ('"' :: text)).bind
    fun r => some (JsTree.obj (fromEntries r.1), r.2)) = _
  rw [h, Option.bind_some]

/-- A member of an object, up to its value. -/
theorem readTreeMembers_name (k : CodeUnits) {fuel : Nat} (hfuel : (literal k).length ≤ fuel)
    (text : List Char) :
    readTreeMembers (fuel + 1) (literal k ++ ':' :: text) =
      (readTree fuel text).bind fun r =>
        match skipSpace r.2 with
        | ',' :: rest => (readTreeMembers fuel rest).bind fun m => some ((k, r.1) :: m.1, m.2)
        | '\x7d' :: rest => some ([(k, r.1)], rest)
        | _ => none := by
  rw [literal, List.cons_append, readTreeMembers, skipSpace_cons (by decide)]
  show ((readUnits fuel ((quoteUnits k ++ ['"']) ++ ':' :: text)).bind _) = _
  rw [readUnits_literal hfuel, Option.bind_some]
  dsimp only
  rw [skipSpace_cons (by decide)]
  rfl

theorem itemsChars_cons (x y : JsTree) (ys : List JsTree) (rest : List Char) :
    itemsChars (x :: y :: ys) ++ rest = x.chars ++ ',' :: (itemsChars (y :: ys) ++ rest) := by
  rw [itemsChars, List.append_assoc, List.cons_append]

theorem itemsChars_head {items : List JsTree} (hsome : items ≠ []) (rest : List Char) :
    skipSpace (itemsChars items ++ rest) = itemsChars items ++ rest ∧
      ∀ tail, itemsChars items ++ rest ≠ ']' :: tail := by
  match items with
  | [] => exact absurd rfl hsome
  | [x] =>
      rw [itemsChars]
      exact x.printed_head rest
  | x :: y :: ys =>
      rw [itemsChars_cons]
      exact x.printed_head _

theorem membersChars_head {members : List (CodeUnits × JsTree)} (hsome : members ≠ [])
    (rest : List Char) : ∃ text, membersChars members ++ rest = '"' :: text := by
  match members with
  | [] => exact absurd rfl hsome
  | [(k, x)] => exact ⟨_, by rw [membersChars, literal, List.cons_append, List.cons_append]⟩
  | (k, x) :: e :: more =>
      exact ⟨_, by rw [membersChars, literal, List.cons_append, List.cons_append]⟩

mutual

theorem readTree_chars (t : JsTree) (hproper : t.Proper) {fuel : Nat}
    (hfuel : t.chars.length < fuel) {rest : List Char} (hrest : t.kind = '0' → Delimited rest) :
    readTree fuel (t.chars ++ rest) = some (t, rest) := by
  obtain ⟨fuel, rfl⟩ := Nat.exists_eq_add_one_of_ne_zero (by omega : fuel ≠ 0)
  match t with
  | .null => exact readTree_null fuel rest
  | .bool b => exact readTree_bool b fuel rest
  | .num n => exact readTree_number n fuel (hrest rfl)
  | .str s =>
      rw [JsTree.chars] at hfuel
      exact readTree_string s (by omega) rest
  | .arr items =>
      by_cases hsome : items = []
      · rw [hsome]
        rfl
      · rw [JsTree.chars, List.length_cons, List.length_append, List.length_singleton] at hfuel
        rw [JsTree.Proper] at hproper
        have hitems := readTreeItems_chars items hsome hproper (by omega : _ < fuel) rest
        obtain ⟨hspace, hhead⟩ := itemsChars_head hsome (']' :: rest)
        rw [JsTree.chars, List.cons_append, List.append_assoc, List.singleton_append]
        exact readTree_items hspace hhead hitems
  | .obj members =>
      by_cases hsome : members = []
      · rw [hsome]
        rfl
      · rw [JsTree.chars, List.length_cons, List.length_append, List.length_singleton] at hfuel
        rw [JsTree.Proper] at hproper
        have hmembers := readTreeMembers_chars members hsome hproper.2.2 (by omega : _ < fuel) rest
        obtain ⟨text, htext⟩ := membersChars_head hsome ('\x7d' :: rest)
        rw [htext] at hmembers
        rw [JsTree.chars, List.cons_append, List.append_assoc, List.singleton_append, htext,
          readTree_members hmembers, fromEntries_of_nodup hproper.1, hproper.2.1]

theorem readTreeItems_chars (items : List JsTree) (hsome : items ≠ [])
    (hproper : properTrees items) {fuel : Nat}
    (hfuel : (itemsChars items).length + 1 < fuel) (rest : List Char) :
    readTreeItems fuel (itemsChars items ++ ']' :: rest) = some (items, rest) := by
  obtain ⟨fuel, rfl⟩ := Nat.exists_eq_add_one_of_ne_zero (by omega : fuel ≠ 0)
  match items with
  | [] => exact absurd rfl hsome
  | [x] =>
      rw [properTrees] at hproper
      rw [itemsChars] at hfuel
      have hend : Delimited (']' :: rest) := delimited_cons (by decide)
      have hread := readTree_chars x hproper.1 (by omega : _ < fuel) fun _ => hend
      rw [readTreeItems, itemsChars, hread]
      rfl
  | x :: y :: ys =>
      rw [properTrees] at hproper
      rw [itemsChars, List.length_append, List.length_cons] at hfuel
      have hend : Delimited (',' :: (itemsChars (y :: ys) ++ ']' :: rest)) :=
        delimited_cons (by decide)
      have hread := readTree_chars x hproper.1 (by omega : _ < fuel) fun _ => hend
      have htail := readTreeItems_chars (y :: ys) (List.cons_ne_nil y ys) hproper.2
        (by omega : _ < fuel) rest
      rw [readTreeItems, itemsChars_cons, hread]
      show ((readTreeItems fuel (itemsChars (y :: ys) ++ ']' :: rest)).bind
        fun r => some (x :: r.1, r.2)) = _
      rw [htail, Option.bind_some]

theorem readTreeMembers_chars (members : List (CodeUnits × JsTree)) (hsome : members ≠ [])
    (hproper : properEntries members) {fuel : Nat}
    (hfuel : (membersChars members).length + 1 < fuel) (rest : List Char) :
    readTreeMembers fuel (membersChars members ++ '\x7d' :: rest) = some (members, rest) := by
  obtain ⟨fuel, rfl⟩ := Nat.exists_eq_add_one_of_ne_zero (by omega : fuel ≠ 0)
  match members with
  | [] => exact absurd rfl hsome
  | [(k, x)] =>
      rw [properEntries] at hproper
      rw [membersChars, List.length_append, List.length_cons] at hfuel
      have hend : Delimited ('\x7d' :: rest) := delimited_cons (by decide)
      have hread := readTree_chars x hproper.1 (by omega : _ < fuel) fun _ => hend
      rw [membersChars, List.append_assoc, List.cons_append, readTreeMembers_name k (by omega),
        hread, Option.bind_some]
      rfl
  | (k, x) :: (k', y) :: more =>
      rw [properEntries] at hproper
      rw [membersChars, List.length_append, List.length_cons, List.length_append,
        List.length_cons] at hfuel
      have hend : Delimited (',' :: (membersChars ((k', y) :: more) ++ '\x7d' :: rest)) :=
        delimited_cons (by decide)
      have hread := readTree_chars x hproper.1 (by omega : _ < fuel) fun _ => hend
      have htail := readTreeMembers_chars ((k', y) :: more) (List.cons_ne_nil _ more) hproper.2
        (by omega : _ < fuel) rest
      rw [membersChars, List.append_assoc, List.cons_append, List.append_assoc,
        List.cons_append, readTreeMembers_name k (by omega), hread, Option.bind_some]
      show ((readTreeMembers fuel (membersChars ((k', y) :: more) ++ '\x7d' :: rest)).bind
        fun m => some ((k, x) :: m.1, m.2)) = _
      rw [htail, Option.bind_some]

end

theorem parse_text {t : JsTree} (h : t.Proper) : JsTree.parse t.text = some t := by
  have hend : Delimited [] := fun c hc => by cases hc
  have hread := readTree_chars t h (Nat.lt_succ_self _) fun _ => hend
  rw [List.append_nil] at hread
  rw [JsTree.parse, JsTree.text, String.toList_ofList, hread]
  rfl

/-- No two data are printed alike. -/
theorem text_inj {t t' : JsTree} (h : t.Proper) (h' : t'.Proper) (htext : t.text = t'.text) :
    t = t' := by
  have hparse := parse_text h
  rw [htext, parse_text h'] at hparse
  exact (Option.some.inj hparse).symm

end PiWorkflows
