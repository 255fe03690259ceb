import PiWorkflows.Js.Parse
import PiWorkflows.Proofs.CanonicalText

/-!
# Parsing undoes printing

What `JSON.stringify` prints of a value without repeated member names,
`JSON.parse` reads back as that value (`jsonParse_stringify`). A canonical value
is one, so the reader of a stored value gets the canonical form of what was
stored (`parseJson_canonicalJson`).

The text behind the value is arbitrary except that a number must end before it
(`Delimited`), which is how the statement passes through the items of an array.
The induction is on the value; the fuel is always more than the length of what
is still to be read.
-/

namespace PiWorkflows

/-! ## Values without repeated names -/

mutual

/-- No object in the value names a member twice. -/
def Json.Proper : Json → Prop
  | .arr items => ProperItems items
  | .obj members => (members.map Prod.fst).Nodup ∧ ProperMembers members
  | _ => True

def ProperItems : List Json → Prop
  | [] => True
  | x :: xs => x.Proper ∧ ProperItems xs

def ProperMembers : List (String × Json) → Prop
  | [] => True
  | (_, x) :: rest => x.Proper ∧ ProperMembers rest

end

theorem properMembers_insertMember {k : String} {x : Json} {members : List (String × Json)}
    (hx : x.Proper) (h : ProperMembers members) :
    ProperMembers (Assoc.insertMember keyRank k x members) := by
  induction members with
  | nil => exact ⟨hx, trivial⟩
  | cons e rest ih =>
      obtain ⟨k', y⟩ := e
      rw [ProperMembers] at h
      rw [Assoc.insertMember]
      split
      · exact ⟨hx, h⟩
      · split
        · exact ⟨hx, h.2⟩
        · exact ⟨h.1, ih h.2⟩

theorem nodup_of_sorted {members : List (String × Json)} (h : Assoc.Sorted keyRank members) :
    (members.map Prod.fst).Nodup := by
  rw [List.Nodup, List.pairwise_map]
  exact h.imp fun hlt heq => absurd hlt (by rw [heq]; exact lt_irrefl _)

mutual

theorem proper_normalizeJson (v : Json) : (normalizeJson v).Proper := by
  match v with
  | .null | .bool _ | .num _ | .str _ => simp [normalizeJson, Json.Proper]
  | .arr items =>
      rw [normalizeJson, Json.Proper]
      exact properItems_normalize items
  | .obj members =>
      rw [normalizeJson, Json.Proper]
      exact ⟨nodup_of_sorted (sorted_normalizeMembers members), properMembers_normalize members⟩

theorem properItems_normalize (items : List Json) : ProperItems (normalizeItems items) := by
  match items with
  | [] => simp [normalizeItems, ProperItems]
  | x :: xs =>
      rw [normalizeItems, ProperItems]
      exact ⟨proper_normalizeJson x, properItems_normalize xs⟩

theorem properMembers_normalize (members : List (String × Json)) :
    ProperMembers (normalizeMembers members) := by
  match members with
  | [] => simp [normalizeMembers, ProperMembers]
  | (k, x) :: rest =>
      rw [normalizeMembers]
      exact properMembers_insertMember (proper_normalizeJson x) (properMembers_normalize rest)

end

theorem assignMembers_of_nodup {members : List (String × Json)}
    (h : (members.map Prod.fst).Nodup) : assignMembers members = members :=
  Assoc.foldl_setKey h

/-! ## Tokens -/

theorem skipSpace_cons {c : Char} {text : List Char} (h : isJsonSpace c = false) :
    skipSpace (c :: text) = c :: text := by
  rw [skipSpace, List.dropWhile_cons_of_neg (by simp [h])]

/-- A printed value starts with none of these. -/
theorem printed_head (v : Json) (rest : List Char) :
    skipSpace (stringifyChars v ++ rest) = stringifyChars v ++ rest ∧
      ∀ tail, stringifyChars v ++ rest ≠ ']' :: tail := by
  refine ⟨?_, fun tail => stringifyChars_ne (kind_ne (by decide))⟩
  obtain ⟨c, cs, hv, hc⟩ := stringifyChars_head v
  rw [hv, List.cons_append]
  refine skipSpace_cons ?_
  by_contra hspace
  rw [Bool.not_eq_false, isJsonSpace, Bool.or_eq_true, Bool.or_eq_true, Bool.or_eq_true] at hspace
  simp only [beq_iff_eq] at hspace
  rcases hspace with ((rfl | rfl) | rfl) | rfl
  all_goals exact kind_ne (by decide) v hc.symm

theorem readCode_control {n : Nat} (h : n < 0x20) (rest : List Char) :
    readCode ('0' :: '0' :: hexDigit (n / 16) :: hexDigit (n % 16) :: rest) =
      some (Char.ofNat n, rest) := by
  have hsum : ((0 * 16 + 0) * 16 + n / 16) * 16 + n % 16 = n := by omega
  have hunit : readUnit ('0' :: '0' :: hexDigit (n / 16) :: hexDigit (n % 16) :: rest) =
      some (((0 * 16 + 0) * 16 + n / 16) * 16 + n % 16, rest) := by
    rw [readUnit, readHexDigit_hexDigit (by omega), readHexDigit_hexDigit (by omega)]
    rfl
  rw [readCode, hunit, hsum]
  show (if n < 0xD800 ∨ 0xE000 ≤ n then some (Char.ofNat n, rest) else _) = _
  rw [if_pos (.inl (by omega))]

/-- One character of a literal is read back from its escape. -/
theorem readString_escapeChar (c : Char) (fuel : Nat) (rest : List Char) :
    readString (fuel + 1) (escapeChar c ++ rest) =
      (readString fuel rest).map fun r => (c :: r.1, r.2) := by
  have hescape : ∀ (e : List Char) (d : Char), readEscape (e ++ rest) = some (d, rest) →
      readString (fuel + 1) ('\\' :: (e ++ rest)) =
        (readString fuel rest).map fun r => (d :: r.1, r.2) := by
    intro e d h
    rw [readString, if_neg (by decide), if_pos rfl, h]
    show ((readString fuel rest).bind fun r => some (d :: r.1, r.2)) = _
    cases readString fuel rest <;> rfl
  unfold escapeChar
  split
  · next h => subst h; exact hescape ['"'] _ rfl
  split
  · next h => subst h; exact hescape ['\\'] _ rfl
  split
  · next h => subst h; exact hescape ['n'] _ rfl
  split
  · next h => subst h; exact hescape ['r'] _ rfl
  split
  · next h => subst h; exact hescape ['t'] _ rfl
  split
  · next h =>
      have hc : c = Char.ofNat 8 := by rw [← h, Char.ofNat_toNat]
      subst hc
      exact hescape ['b'] _ rfl
  split
  · next h =>
      have hc : c = Char.ofNat 12 := by rw [← h, Char.ofNat_toNat]
      subst hc
      exact hescape ['f'] _ rfl
  split
  · next h =>
      refine hescape ['u', '0', '0', hexDigit (c.toNat / 16), hexDigit (c.toNat % 16)] c ?_
      exact (readCode_control h rest).trans (by rw [Char.ofNat_toNat])
  · next hquote hback _ _ _ _ _ hprint =>
      show readString (fuel + 1) (c :: rest) = _
      rw [readString, if_neg hquote, if_neg hback, if_neg hprint]
      cases readString fuel rest <;> rfl

theorem readString_escaped {s : List Char} {fuel : Nat} (hfuel : s.length < fuel)
    (rest : List Char) :
    readString fuel (s.flatMap escapeChar ++ '"' :: rest) = some (s, rest) := by
  induction s generalizing fuel with
  | nil =>
      obtain ⟨fuel, rfl⟩ := Nat.exists_eq_add_one_of_ne_zero (Nat.ne_of_gt hfuel)
      rw [List.flatMap_nil, List.nil_append, readString, if_pos rfl]
  | cons c cs ih =>
      rw [List.length_cons] at hfuel
      obtain ⟨fuel, rfl⟩ := Nat.exists_eq_add_one_of_ne_zero (by omega : fuel ≠ 0)
      rw [List.flatMap_cons, List.append_assoc, readString_escapeChar, ih (by omega)]
      rfl

theorem length_le_escaped (s : List Char) : s.length ≤ (s.flatMap escapeChar).length := by
  induction s with
  | nil => exact Nat.le_refl 0
  | cons c cs ih =>
      obtain ⟨d, ds, hd, _⟩ := escapeChar_head c
      rw [List.flatMap_cons, List.length_append, List.length_cons, hd, List.length_cons]
      omega

theorem readString_quoted {s : String} {fuel : Nat} (hfuel : (quoteChars s).length ≤ fuel)
    (rest : List Char) :
    readString fuel ((s.toList.flatMap escapeChar ++ ['"']) ++ rest) = some (s.toList, rest) := by
  have hlen := length_le_escaped s.toList
  rw [quoteChars, List.length_cons, List.length_append, List.length_singleton] at hfuel
  rw [List.append_assoc]
  exact readString_escaped (by omega) rest

theorem readNumber_printed (n : JsNumber) {rest : List Char} (hrest : Delimited rest) :
    readNumber (n.text.toList ++ rest) = some (.num n, rest) := by
  have htake := takeWhile_numeral n.all_numeral hrest
  have hdrop : (n.text.toList ++ rest).dropWhile isNumeralChar = rest := by
    have hsplit := List.takeWhile_append_dropWhile (p := isNumeralChar) (l := n.text.toList ++ rest)
    rw [htake] at hsplit
    exact List.append_cancel_left hsplit
  unfold readNumber
  rw [hdrop]
  simp only [htake, String.ofList_toList]
  rw [dif_pos n.numeral]

/-! ## Values -/

theorem readValue_null (fuel : Nat) (rest : List Char) :
    readValue (fuel + 1) (stringifyChars .null ++ rest) = some (.null, rest) := by
  rw [readValue, (printed_head .null rest).1, stringifyChars]
  rfl

theorem readValue_bool (b : Bool) (fuel : Nat) (rest : List Char) :
    readValue (fuel + 1) (stringifyChars (.bool b) ++ rest) = some (.bool b, rest) := by
  rw [readValue, (printed_head (.bool b) rest).1]
  cases b <;> rw [stringifyChars] <;> rfl

theorem readValue_number (n : JsNumber) (fuel : Nat) {rest : List Char} (hrest : Delimited rest) :
    readValue (fuel + 1) (stringifyChars (.num n) ++ rest) = some (.num n, rest) := by
  obtain ⟨c, cs, hchars, hkind⟩ := stringifyChars_head (.num n)
  have hread := readNumber_printed n hrest
  rw [stringifyChars] at hchars
  have hdigit : (c.isDigit || c == '-') = true := by
    by_contra hother
    have hne : c = '0' := by
      rw [kindChar, if_neg hother] at hkind
      exact hkind
    subst hne
    exact hother rfl
  rw [readValue, (printed_head (.num n) rest).1, stringifyChars]
  rw [hchars, List.cons_append] at hread ⊢
  -- A digit or a sign is none of the characters another value starts with.
  split
  all_goals first
    | exact hread
    | (next heq =>
        rw [(List.cons.inj heq).1] at hdigit
        exact absurd hdigit (by decide))

theorem readValue_string (s : String) {fuel : Nat} (hfuel : (quoteChars s).length ≤ fuel)
    (rest : List Char) :
    readValue (fuel + 1) (stringifyChars (.str s) ++ rest) = some (.str s, rest) := by
  rw [readValue, (printed_head (.str s) rest).1, stringifyChars]
  show ((readString fuel ((s.toList.flatMap escapeChar ++ ['"']) ++ rest)).bind
    fun r => some (Json.str (String.ofList r.1), r.2)) = _
  rw [readString_quoted hfuel, Option.bind_some, String.ofList_toList]

/-- What is read behind the opening bracket of an array. -/
def itemsFrom (read : List Char → Option (List Json × List Char)) :
    List Char → Option (Json × List Char)
  | ']' :: rest => some (.arr [], rest)
  | rest => (read rest).bind fun r => some (.arr r.1, r.2)

theorem readValue_items {fuel : Nat} {text rest : List Char} {items : List Json}
    (hspace : skipSpace text = text) (hhead : ∀ tail, text ≠ ']' :: tail)
    (h : readItems fuel text = some (items, rest)) :
    readValue (fuel + 1) ('[' :: text) = some (.arr items, rest) := by
  rw [readValue, skipSpace_cons (by decide)]
  show itemsFrom (readItems fuel) (skipSpace text) = _
  rw [hspace, itemsFrom, h, Option.bind_some]
  exact hhead

theorem readValue_members {fuel : Nat} {text rest : List Char} {members : List (String × Json)}
    (h : readMembers fuel ('"' :: text) = some (members, rest)) :
    readValue (fuel + 1) ('\x7b' :: '"' :: text) = some (.obj (assignMembers members), rest) := by
  rw [readValue, skipSpace_cons (by decide)]
  show ((readMembers fuel ('"' :: text)).bind
    fun r => some (Json.obj (assignMembers r.1), r.2)) = _
  rw [h, Option.bind_some]

/-- A member of an object, up to its value. -/
theorem readMembers_name (k : String) {fuel : Nat} (hfuel : (quoteChars k).length ≤ fuel)
    (text : List Char) :
    readMembers (fuel + 1) (quoteChars k ++ ':' :: text) =
      (readValue fuel text).bind fun r =>
        match skipSpace r.2 with
        | ',' :: rest => (readMembers fuel rest).bind fun m => some ((k, r.1) :: m.1, m.2)
        | '\x7d' :: rest => some ([(k, r.1)], rest)
        | _ => none := by
  rw [quoteChars, List.cons_append, readMembers, skipSpace_cons (by decide)]
  show ((readString fuel ((k.toList.flatMap escapeChar ++ ['"']) ++ ':' :: text)).bind _) = _
  rw [readString_quoted hfuel, Option.bind_some]
  dsimp only
  rw [skipSpace_cons (by decide), String.ofList_toList]
  rfl

theorem stringifyItems_cons (x y : Json) (ys : List Json) (rest : List Char) :
    stringifyItems (x :: y :: ys) ++ rest =
      stringifyChars x ++ ',' :: (stringifyItems (y :: ys) ++ rest) := by
  rw [stringifyItems, List.append_assoc, List.cons_append]

theorem printedItems_head {items : List Json} (hsome : items ≠ []) (rest : List Char) :
    skipSpace (stringifyItems items ++ rest) = stringifyItems items ++ rest ∧
      ∀ tail, stringifyItems items ++ rest ≠ ']' :: tail := by
  match items with
  | [] => exact absurd rfl hsome
  | [x] =>
      rw [stringifyItems]
      exact printed_head x rest
  | x :: y :: ys =>
      rw [stringifyItems_cons]
      exact printed_head x _

theorem printedMembers_head {members : List (String × Json)} (hsome : members ≠ [])
    (rest : List Char) : ∃ text, stringifyMembers members ++ rest = '"' :: text := by
  match members with
  | [] => exact absurd rfl hsome
  | [(k, x)] => exact ⟨_, by rw [stringifyMembers, quoteChars, List.cons_append, List.cons_append]⟩
  | (k, x) :: e :: more =>
      exact ⟨_, by rw [stringifyMembers, quoteChars, List.cons_append, List.cons_append]⟩

mutual

theorem readValue_stringify (v : Json) (hproper : v.Proper) {fuel : Nat}
    (hfuel : (stringifyChars v).length < fuel) {rest : List Char} (hrest : Delimited rest) :
    readValue fuel (stringifyChars v ++ rest) = some (v, rest) := by
  obtain ⟨fuel, rfl⟩ := Nat.exists_eq_add_one_of_ne_zero (by omega : fuel ≠ 0)
  match v with
  | .null => exact readValue_null fuel rest
  | .bool b => exact readValue_bool b fuel rest
  | .num n => exact readValue_number n fuel hrest
  | .str s =>
      rw [stringifyChars] at hfuel
      exact readValue_string s (by omega) rest
  | .arr items =>
      by_cases hsome : items = []
      · rw [hsome]
        rfl
      · rw [stringifyChars, List.length_cons, List.length_append, List.length_singleton] at hfuel
        rw [Json.Proper] at hproper
        have hitems := readItems_stringify items hsome hproper (by omega : _ < fuel) rest
        obtain ⟨hspace, hhead⟩ := printedItems_head hsome (']' :: rest)
        rw [stringifyChars, List.cons_append, List.append_assoc, List.singleton_append]
        exact readValue_items hspace hhead hitems
  | .obj members =>
      by_cases hsome : members = []
      · rw [hsome]
        rfl
      · rw [stringifyChars, List.length_cons, List.length_append, List.length_singleton] at hfuel
        rw [Json.Proper] at hproper
        have hmembers := readMembers_stringify members hsome hproper.2 (by omega : _ < fuel) rest
        obtain ⟨text, htext⟩ := printedMembers_head hsome ('\x7d' :: rest)
        rw [htext] at hmembers
        rw [stringifyChars, List.cons_append, List.append_assoc, List.singleton_append, htext,
          readValue_members hmembers, assignMembers_of_nodup hproper.1]

theorem readItems_stringify (items : List Json) (hsome : items ≠ [])
    (hproper : ProperItems items) {fuel : Nat}
    (hfuel : (stringifyItems items).length + 1 < fuel) (rest : List Char) :
    readItems fuel (stringifyItems items ++ ']' :: rest) = some (items, rest) := by
  obtain ⟨fuel, rfl⟩ := Nat.exists_eq_add_one_of_ne_zero (by omega : fuel ≠ 0)
  match items with
  | [] => exact absurd rfl hsome
  | [x] =>
      rw [ProperItems] at hproper
      rw [stringifyItems] at hfuel
      have hend : Delimited (']' :: rest) := delimited_cons (by decide)
      have hread := readValue_stringify x hproper.1 (by omega : _ < fuel) hend
      rw [readItems, stringifyItems, hread]
      rfl
  | x :: y :: ys =>
      rw [ProperItems] at hproper
      rw [stringifyItems, List.length_append, List.length_cons] at hfuel
      have hend : Delimited (',' :: (stringifyItems (y :: ys) ++ ']' :: rest)) :=
        delimited_cons (by decide)
      have hread := readValue_stringify x hproper.1 (by omega : _ < fuel) hend
      have htail := readItems_stringify (y :: ys) (List.cons_ne_nil y ys) hproper.2
        (by omega : _ < fuel) rest
      rw [readItems, stringifyItems_cons, hread]
      show ((readItems fuel (stringifyItems (y :: ys) ++ ']' :: rest)).bind
        fun r => some (x :: r.1, r.2)) = _
      rw [htail, Option.bind_some]

theorem readMembers_stringify (members : List (String × Json)) (hsome : members ≠ [])
    (hproper : ProperMembers members) {fuel : Nat}
    (hfuel : (stringifyMembers members).length + 1 < fuel) (rest : List Char) :
    readMembers fuel (stringifyMembers members ++ '\x7d' :: rest) = some (members, rest) := by
  obtain ⟨fuel, rfl⟩ := Nat.exists_eq_add_one_of_ne_zero (by omega : fuel ≠ 0)
  match members with
  | [] => exact absurd rfl hsome
  | [(k, x)] =>
      rw [ProperMembers] at hproper
      rw [stringifyMembers, List.length_append, List.length_cons] at hfuel
      have hend : Delimited ('\x7d' :: rest) := delimited_cons (by decide)
      have hread := readValue_stringify x hproper.1 (by omega : _ < fuel) hend
      rw [stringifyMembers, List.append_assoc, List.cons_append, readMembers_name k (by omega),
        hread, Option.bind_some]
      rfl
  | (k, x) :: (k', y) :: more =>
      rw [ProperMembers] at hproper
      rw [stringifyMembers, List.length_append, List.length_cons, List.length_append,
        List.length_cons] at hfuel
      have hend : Delimited (',' :: (stringifyMembers ((k', y) :: more) ++ '\x7d' :: rest)) :=
        delimited_cons (by decide)
      have hread := readValue_stringify x hproper.1 (by omega : _ < fuel) hend
      have htail := readMembers_stringify ((k', y) :: more) (List.cons_ne_nil _ more) hproper.2
        (by omega : _ < fuel) rest
      rw [stringifyMembers, List.append_assoc, List.cons_append, List.append_assoc,
        List.cons_append, readMembers_name k (by omega), hread, Option.bind_some]
      show ((readMembers fuel (stringifyMembers ((k', y) :: more) ++ '\x7d' :: rest)).bind
        fun m => some ((k, x) :: m.1, m.2)) = _
      rw [htail, Option.bind_some]

end

theorem jsonParse_stringify {v : Json} (h : v.Proper) : jsonParse (stringify v) = some v := by
  have hend : Delimited [] := fun c hc => by cases hc
  have hread := readValue_stringify v h (Nat.lt_succ_self _) hend
  rw [List.append_nil] at hread
  rw [jsonParse, stringify, String.toList_ofList, hread]
  rfl

/-- Reading what was written gives the canonical form of it. -/
theorem parseJson_canonicalJson (v : Json) : parseJson (canonicalJson v) = some (normalizeJson v) := by
  rw [parseJson, canonicalJson, jsonParse_stringify (proper_normalizeJson v), Option.map_some,
    normalizeJson_idem]

end PiWorkflows
