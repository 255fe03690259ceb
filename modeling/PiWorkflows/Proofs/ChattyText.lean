import Mathlib.Data.List.TakeWhile
import PiWorkflows.Proofs.ReadLength
import PiWorkflows.Proofs.ScanText

/-!
# A value in chatty text

A value that a model prints between other words is found by the scan, unless one
of the two ways tried before the scan finds something else. The whole text is
JSON only if nothing but white space stands around the value (`parse_around`).
A fenced block is looked for in the whole text, strings included, and the words
around have no part in it (`extractFencedJsonText_around`); what it contains is
shorter than the value, so a value read from it is another one
(`length_of_extractFencedJsonText`).
-/

namespace PiWorkflows

/-- The characters that brackets, strings and code fences are made of. -/
def isJsonMark (c : Char) : Bool :=
  isOpening c || isClosing c || c == '"' || c == Char.ofNat 0x60

/-- Words around a value. -/
def Unmarked (text : List Char) : Prop :=
  ∀ c ∈ text, isJsonMark c = false

instance (text : List Char) : Decidable (Unmarked text) :=
  List.decidableBAll _ text

theorem not_isOpening {c : Char} (h : isJsonMark c = false) : isOpening c = false := by
  rw [isJsonMark, Bool.or_eq_false_iff, Bool.or_eq_false_iff, Bool.or_eq_false_iff] at h
  exact h.1.1.1

theorem ne_quote {c : Char} (h : isJsonMark c = false) : c ≠ '"' := by
  rintro rfl
  exact absurd h (by decide)

theorem ne_tick {c : Char} (h : isJsonMark c = false) : c ≠ Char.ofNat 0x60 := by
  rintro rfl
  exact absurd h (by decide)

/-! ## White space -/

theorem isTrimmed_of_isJsonSpace {c : Char} (h : isJsonSpace c = true) : isTrimmed c = true := by
  simp only [isJsonSpace, Bool.or_eq_true, beq_iff_eq] at h
  rcases h with ((rfl | rfl) | rfl) | rfl <;> decide

theorem dropWhile_stop {α : Type} {p : α → Bool} {a : α} (h : p a = false) (l rest : List α) :
    (l ++ a :: rest).dropWhile p = l.dropWhile p ++ a :: rest := by
  rw [List.dropWhile_append]
  split
  · next hnone =>
      rw [List.isEmpty_iff.1 hnone, List.nil_append, List.dropWhile_cons_of_neg (by simp [h])]
  · rfl

/-- Only the words around a value are trimmed. -/
theorem trimChars_around {first last : Char} (hfirst : isTrimmed first = false)
    (hlast : isTrimmed last = false) (before inner after : List Char) :
    trimChars (before ++ first :: (inner ++ [last]) ++ after) =
      before.dropWhile isTrimmed ++ first :: (inner ++ [last]) ++
        (after.reverse.dropWhile isTrimmed).reverse := by
  have hleft : (before ++ first :: (inner ++ [last]) ++ after).dropWhile isTrimmed =
      before.dropWhile isTrimmed ++ first :: inner ++ last :: after := by
    rw [List.append_assoc, List.cons_append, dropWhile_stop hfirst]
    simp
  rw [trimChars, hleft, List.reverse_append, List.reverse_cons, List.append_assoc,
    List.singleton_append, dropWhile_stop hlast]
  simp

/-! ## The whole text -/

/-- A value that opens with no mark leaves every bracket behind it unread. -/
theorem opening_unread {fuel : Nat} {text rest : List Char} {t : JsTree}
    (h : readTree fuel text = some (t, rest)) {c : Char} {tail : List Char}
    (hspace : skipSpace text = c :: tail) (hc : isJsonMark c = false) {b : Char}
    (hb : isOpening b = true) (hmem : b ∈ c :: tail) : b ∈ rest := by
  have hne : ∀ d, isOpening d = false → b ≠ d := by
    rintro d hd rfl
    rw [hb] at hd
    cases hd
  have hnumeral : isNumeralChar b = false := by
    rw [isOpening, Bool.or_eq_true, beq_iff_eq, beq_iff_eq] at hb
    rcases hb with rfl | rfl <;> decide
  cases fuel with
  | zero => cases h
  | succ fuel =>
      rw [readTree, hspace] at h
      split at h
      case h_1 heq =>
        cases h
        rw [heq] at hmem
        simpa [hne 'n' (by decide), hne 'u' (by decide), hne 'l' (by decide)] using hmem
      case h_2 heq =>
        cases h
        rw [heq] at hmem
        simpa [hne 't' (by decide), hne 'r' (by decide), hne 'u' (by decide),
          hne 'e' (by decide)] using hmem
      case h_3 heq =>
        cases h
        rw [heq] at hmem
        simpa [hne 'f' (by decide), hne 'a' (by decide), hne 'l' (by decide),
          hne 's' (by decide), hne 'e' (by decide)] using hmem
      case h_4 heq => exact absurd (List.cons.inj heq).1 (ne_quote hc)
      case h_5 heq =>
        rw [(List.cons.inj heq).1] at hc
        exact absurd hc (by decide)
      case h_6 heq =>
        rw [(List.cons.inj heq).1] at hc
        exact absurd hc (by decide)
      case h_7 =>
        unfold readNumeral at h
        split at h
        · cases h
          rw [← List.takeWhile_append_dropWhile (p := isNumeralChar) (l := c :: tail),
            List.mem_append] at hmem
          refine hmem.resolve_left fun htaken => ?_
          rw [List.all_eq_true.1 List.all_takeWhile b htaken] at hnumeral
          cases hnumeral
        · cases h

theorem parse_behind_words {before rest : List Char} {b c : Char} (hbefore : Unmarked (c :: before))
    (hc : isTrimmed c = false) (hb : isOpening b = true) :
    tryParse (c :: before ++ b :: rest) = none := by
  have hspace : skipSpace (c :: (before ++ b :: rest)) = c :: (before ++ b :: rest) := by
    refine skipSpace_cons (Bool.eq_false_iff.2 fun h => ?_)
    rw [isTrimmed_of_isJsonSpace h] at hc
    cases hc
  rw [List.cons_append, tryParse, JsTree.parse, String.toList_ofList, Option.bind_eq_bind,
    Option.bind_eq_none_iff]
  intro r hread
  have hunread := opening_unread hread hspace (hbefore c List.mem_cons_self) hb
    (List.mem_cons_of_mem _ (List.mem_append_right _ List.mem_cons_self))
  refine if_neg fun hdone => ?_
  have hblank := List.dropWhile_eq_nil_iff.1 hdone b hunread
  rw [isOpening, Bool.or_eq_true, beq_iff_eq, beq_iff_eq] at hb
  rcases hb with rfl | rfl <;> exact absurd hblank (by decide)

theorem kind_of_isContainer {v : JsTree} (h : v.isContainer = true) : v.kind ≠ '0' := by
  cases v with
  | arr items => exact fun h => absurd h (by decide : '[' ≠ '0')
  | obj members => exact fun h => absurd h (by decide : '\x7b' ≠ '0')
  | _ => cases h

theorem parse_before_words {v : JsTree} (hproper : v.Proper) (hv : v.isContainer = true)
    {after : List Char} {c : Char} (hmem : c ∈ after) (hc : isTrimmed c = false) :
    tryParse (v.chars ++ after) = none := by
  have hread : readTree ((v.chars ++ after).length + 1) (v.chars ++ after) = some (v, after) :=
    readTree_chars v hproper (by rw [List.length_append]; omega)
      fun h => absurd h (kind_of_isContainer hv)
  rw [tryParse, JsTree.parse, String.toList_ofList, hread]
  refine if_neg fun hdone => ?_
  rw [isTrimmed_of_isJsonSpace (List.dropWhile_eq_nil_iff.1 hdone c hmem)] at hc
  cases hc

/-! ## Fenced text -/

theorem codeFence_eq : codeFence = [Char.ofNat 0x60, Char.ofNat 0x60, Char.ofNat 0x60] := by
  decide

theorem isPrefixOf_words (text : List Char) {after : List Char} (h : Unmarked after) :
    codeFence.isPrefixOf (text ++ after) = codeFence.isPrefixOf text := by
  have hnone : ∀ c ∈ after, (Char.ofNat 0x60 == c) = false := fun c hc =>
    beq_false_of_ne (ne_tick (h c hc)).symm
  have hafter : ∀ ticks : List Char, (Char.ofNat 0x60 :: ticks).isPrefixOf after = false := by
    intro ticks
    cases after with
    | nil => rfl
    | cons c after => rw [List.isPrefixOf, hnone c List.mem_cons_self, Bool.false_and]
  rw [codeFence_eq]
  cases text with
  | nil => exact hafter _
  | cons a text =>
      cases text with
      | nil =>
          rw [List.singleton_append, List.isPrefixOf, List.isPrefixOf, hafter]
          rfl
      | cons b text =>
          cases text with
          | nil =>
              rw [List.cons_append, List.singleton_append, List.isPrefixOf, List.isPrefixOf,
                List.isPrefixOf, List.isPrefixOf, hafter []]
              rfl
          | cons c text => rfl

theorem cutFence_words {after : List Char} (h : Unmarked after) : cutFence after = none := by
  induction after with
  | nil => rfl
  | cons c after ih =>
      rw [cutFence, ← List.nil_append (c :: after), isPrefixOf_words [] h, List.nil_append,
        ih fun d hd => h d (List.mem_cons_of_mem c hd)]
      rfl

theorem cutFence_behind {before : List Char} (h : Unmarked before) (text : List Char) :
    cutFence (before ++ text) = (cutFence text).map fun r => (before ++ r.1, r.2) := by
  induction before with
  | nil => exact Option.map_id'.symm
  | cons c before ih =>
      have hc : (Char.ofNat 0x60 == c) = false :=
        beq_false_of_ne (ne_tick (h c List.mem_cons_self)).symm
      have hstart : codeFence.isPrefixOf (c :: (before ++ text)) = false := by
        rw [codeFence_eq, List.isPrefixOf, hc, Bool.false_and]
      rw [List.cons_append, cutFence, hstart, ih fun d hd => h d (List.mem_cons_of_mem c hd)]
      simp only [Bool.false_eq_true, if_false, Option.map_map]
      rfl

theorem cutFence_before (text : List Char) {after : List Char} (h : Unmarked after) :
    cutFence (text ++ after) = (cutFence text).map fun r => (r.1, r.2 ++ after) := by
  induction text with
  | nil => exact cutFence_words h
  | cons c text ih =>
      have hstart := isPrefixOf_words (c :: text) h
      rw [List.cons_append] at hstart
      rw [List.cons_append, cutFence, cutFence, hstart]
      split
      · next hprefix =>
          have hlength := (List.isPrefixOf_iff_prefix.1 hprefix).length_le
          rw [← List.cons_append, List.drop_append_of_le_length hlength]
          rfl
      · rw [ih, Option.map_map, Option.map_map]
        rfl

theorem cutFence_eq {text left right : List Char} (h : cutFence text = some (left, right)) :
    text = left ++ codeFence ++ right := by
  induction text generalizing left with
  | nil => cases h
  | cons c text ih =>
      rw [cutFence] at h
      split at h
      · next hprefix =>
          cases h
          obtain ⟨rest, hrest⟩ := List.isPrefixOf_iff_prefix.1 hprefix
          rw [← hrest, List.drop_left, List.nil_append]
      · rw [Option.map_eq_some_iff] at h
        obtain ⟨r, hr, hpair⟩ := h
        cases hpair
        rw [ih hr]
        rfl

theorem skipTag_of_not {text : List Char}
    (h : ∀ j s o n w rest, text = j :: s :: o :: n :: w :: rest →
      ([j, s, o, n].map Char.toLower = "json".toList && isFenceWhitespace w) = false) :
    skipTag text = text := by
  unfold skipTag
  split
  · next j s o n w rest => rw [h j s o n w rest rfl]; rfl
  · rfl

/-- A bracket is neither part of the tag nor the white space behind it. -/
theorem skipTag_bracket {b : Char} (hb : isClosing b = true) (left : List Char) :
    ∃ kept, ∀ after, skipTag (left ++ b :: after) = kept ++ b :: after := by
  rw [isClosing, Bool.or_eq_true, beq_iff_eq, beq_iff_eq] at hb
  have hletters : (['j', 's', 'o', 'n'].all fun d => b.toLower != d) = true := by
    rcases hb with rfl | rfl <;> decide
  have hletter : ∀ d ∈ ['j', 's', 'o', 'n'], b.toLower ≠ d := fun d hd =>
    bne_iff_ne.1 (List.all_eq_true.1 hletters d hd)
  have hspace : isFenceWhitespace b = false := by
    rcases hb with rfl | rfl <;> decide
  have hjson : "json".toList = ['j', 's', 'o', 'n'] := by decide
  rcases left with _ | ⟨j, _ | ⟨s, _ | ⟨o, _ | ⟨n, _ | ⟨w, left⟩⟩⟩⟩⟩
  -- The bracket stands where a letter of the tag should.
  case nil =>
    refine ⟨[], fun after => skipTag_of_not ?_⟩
    rintro _ _ _ _ _ _ heq
    cases heq
    simp [hjson, hletter 'j' (by decide)]
  case cons.nil =>
    refine ⟨[j], fun after => skipTag_of_not ?_⟩
    rintro _ _ _ _ _ _ heq
    cases heq
    simp [hjson, hletter 's' (by decide)]
  case cons.cons.nil =>
    refine ⟨[j, s], fun after => skipTag_of_not ?_⟩
    rintro _ _ _ _ _ _ heq
    cases heq
    simp [hjson, hletter 'o' (by decide)]
  case cons.cons.cons.nil =>
    refine ⟨[j, s, o], fun after => skipTag_of_not ?_⟩
    rintro _ _ _ _ _ _ heq
    cases heq
    simp [hjson, hletter 'n' (by decide)]
  case cons.cons.cons.cons.nil =>
    refine ⟨[j, s, o, n], fun after => skipTag_of_not ?_⟩
    rintro _ _ _ _ _ _ heq
    cases heq
    rw [hspace, Bool.and_false]
  case cons.cons.cons.cons.cons =>
    by_cases htag : ([j, s, o, n].map Char.toLower = "json".toList && isFenceWhitespace w) = true
    · exact ⟨w :: left, fun after => if_pos htag⟩
    · exact ⟨j :: s :: o :: n :: w :: left, fun after => if_neg htag⟩

theorem length_skipTag_le (text : List Char) : (skipTag text).length ≤ text.length := by
  unfold skipTag
  split
  · split
    · simp only [List.length_cons]
      omega
    · exact Nat.le_refl _
  · exact Nat.le_refl _

/-- The words around printed data have no part in its fenced block. -/
theorem extractFencedJsonText_around {before after : List Char} (hbefore : Unmarked before)
    (hafter : Unmarked after) {b : Char} (hb : isClosing b = true) (inner : List Char) :
    extractFencedJsonText (before ++ (inner ++ [b]) ++ after) =
      extractFencedJsonText (inner ++ [b]) := by
  rw [extractFencedJsonText, extractFencedJsonText, cutFence_before _ hafter,
    cutFence_behind hbefore]
  cases hcut : cutFence (inner ++ [b]) with
  | none => rfl
  | some r =>
      obtain ⟨left, right⟩ := r
      have hsplit := cutFence_eq hcut
      have hspace : isFenceWhitespace b = false := by
        rw [isClosing, Bool.or_eq_true, beq_iff_eq, beq_iff_eq] at hb
        rcases hb with rfl | rfl <;> decide
      -- The closing bracket of the data stands behind the opening fence.
      obtain ⟨right, rfl⟩ : ∃ rest, right = rest ++ [b] := by
        rcases List.eq_nil_or_concat right with rfl | ⟨rest, c, rfl⟩
        · have hlast : b = Char.ofNat 0x60 := by
            have hends := congrArg List.getLast? hsplit
            rw [codeFence_eq] at hends
            simpa using hends
          rw [hlast] at hb
          exact absurd hb (by decide)
        · rw [List.concat_eq_append, ← List.append_assoc] at hsplit
          exact ⟨rest, by rw [List.concat_eq_append, (List.append_inj' hsplit rfl).2]⟩
      obtain ⟨kept, hkept⟩ := skipTag_bracket hb right
      have hnone := hkept []
      have hsome := hkept after
      simp only [Option.map_some]
      rw [List.append_assoc, List.singleton_append, hsome, hnone, dropWhile_stop hspace,
        dropWhile_stop hspace, ← List.singleton_append (l := after), ← List.append_assoc,
        cutFence_before _ hafter, Option.map_map]
      rfl

/-- What is in a fenced block is shorter than the text with the block. -/
theorem length_of_extractFencedJsonText {text content : List Char}
    (h : extractFencedJsonText text = some content) : content.length < text.length := by
  unfold extractFencedJsonText at h
  split at h
  · cases h
  · next left right hcut =>
      rw [Option.map_eq_some_iff] at h
      obtain ⟨r, hr, hcontent⟩ := h
      have houter := congrArg List.length (cutFence_eq hcut)
      have hinner := congrArg List.length (cutFence_eq hr)
      have hblank := (List.dropWhile_suffix (p := isFenceWhitespace)
        (l := skipTag right)).length_le
      have htag := length_skipTag_le right
      have htrim : content.length ≤ r.1.length := by
        rw [← hcontent, trimChars, List.length_reverse]
        have hend := (List.dropWhile_suffix (p := isTrimmed)
          (l := (r.1.dropWhile isTrimmed).reverse)).length_le
        have hstart := (List.dropWhile_suffix (p := isTrimmed) (l := r.1)).length_le
        rw [List.length_reverse] at hend
        omega
      simp only [List.length_append, codeFence_eq, List.length_cons, List.length_nil]
        at houter hinner
      omega

/-! ## The value -/

theorem candidatesWithin_behind {before : List Char} (h : Unmarked before) (scans : Nat)
    (text : List Char) :
    candidatesWithin (scans + 1) (before ++ text) = candidatesWithin (scans + 1) text := by
  induction before with
  | nil => rfl
  | cons c before ih =>
      rw [List.cons_append, candidatesWithin, not_isOpening (h c List.mem_cons_self)]
      exact ih fun d hd => h d (List.mem_cons_of_mem c hd)

/-- How a printed object or array begins and ends. -/
theorem container_chars {v : JsTree} (hv : v.isContainer = true) :
    ∃ first inner last, v.chars = first :: (inner ++ [last]) ∧ isOpening first = true ∧
      isClosing last = true := by
  cases v with
  | arr items => exact ⟨'[', itemsChars items, ']', by rw [JsTree.chars], rfl, rfl⟩
  | obj members => exact ⟨'\x7b', membersChars members, '\x7d', by rw [JsTree.chars], rfl, rfl⟩
  | _ => cases hv

theorem tryParse_chars {v : JsTree} (h : v.Proper) : tryParse v.chars = some v :=
  parse_text h

theorem unmarked_of_subset {text text' : List Char} (h : Unmarked text) (hsub : text' ⊆ text) :
    Unmarked text' := fun c hc => h c (hsub hc)

section

variable {v : JsTree} {before after : List Char}

theorem extractFencedJsonText_chars (hv : v.isContainer = true) (hbefore : Unmarked before)
    (hafter : Unmarked after) :
    extractFencedJsonText (before ++ v.chars ++ after) = extractFencedJsonText v.chars := by
  obtain ⟨first, inner, last, hchars, _, hlast⟩ := container_chars hv
  rw [hchars, ← List.cons_append]
  exact extractFencedJsonText_around hbefore hafter hlast (first :: inner)

/-- The first bracketed part is the value. -/
theorem embeddedValue_chars (hproper : v.Proper) (hv : v.isContainer = true)
    (hbefore : Unmarked before) :
    embeddedValue .compat (before ++ v.chars ++ after) = some v := by
  obtain ⟨first, inner, last, hchars, hfirst, _⟩ := container_chars hv
  have hscan := scanBalanced_chars hv after
  rw [embeddedValue, if_pos rfl, extractBalancedJsonCandidates, MAX_CANDIDATE_SCANS,
    List.append_assoc, candidatesWithin_behind hbefore, hchars, List.cons_append, candidatesWithin,
    if_pos hfirst, ← List.cons_append, ← hchars, hscan]
  exact List.findSome?_cons_of_isSome (by rw [tryParse_chars hproper]; rfl) |>.trans
    (tryParse_chars hproper)

/-- A fenced block of the printed value holds no text of the value itself. -/
theorem fencedValue_ne (w : JsTree) (h : fencedValue .compat v.chars = some w) : w ≠ v := by
  rintro rfl
  rw [fencedValue, if_pos (.inr rfl), Option.bind_eq_some_iff] at h
  obtain ⟨content, hcontent, hparse⟩ := h
  have hshort := length_of_extractFencedJsonText hcontent
  have hlong := length_of_parse hparse
  rw [String.toList_ofList] at hlong
  omega

/-- With words around it the whole text is no JSON. -/
theorem tryParse_around (hproper : v.Proper) (hv : v.isContainer = true)
    (hbefore : Unmarked before)
    (hwords : ¬(before.all isTrimmed = true ∧ after.all isTrimmed = true)) :
    tryParse (before.dropWhile isTrimmed ++ v.chars ++
      (after.reverse.dropWhile isTrimmed).reverse) = none := by
  obtain ⟨first, inner, last, hchars, hfirst, _⟩ := container_chars hv
  cases hleft : before.dropWhile isTrimmed with
  | cons c words =>
      have hwordsBefore : Unmarked (c :: words) :=
        hleft ▸ unmarked_of_subset hbefore (List.dropWhile_subset _)
      have hc : isTrimmed c = false := by
        have hhead := List.head?_dropWhile_not isTrimmed before
        rw [hleft] at hhead
        simpa using hhead
      rw [hchars, List.append_assoc, List.cons_append]
      exact parse_behind_words hwordsBefore hc hfirst
  | nil =>
      have hbefore' : before.all isTrimmed = true :=
        List.all_eq_true.2 (List.dropWhile_eq_nil_iff.1 hleft)
      obtain ⟨c, hc, hkept⟩ : ∃ c ∈ after, isTrimmed c = false := by
        by_contra hnone
        refine hwords ⟨hbefore', List.all_eq_true.2 fun c hc => ?_⟩
        by_contra hfalse
        exact hnone ⟨c, hc, by simpa using hfalse⟩
      have hmem : c ∈ (after.reverse.dropWhile isTrimmed).reverse := by
        rw [List.mem_reverse]
        have hall := List.mem_reverse.2 hc
        rw [← List.takeWhile_append_dropWhile (p := isTrimmed) (l := after.reverse),
          List.mem_append] at hall
        refine hall.resolve_left fun htaken => ?_
        rw [List.all_eq_true.1 List.all_takeWhile c htaken] at hkept
        cases hkept
      exact parse_before_words hproper hv hmem hkept

end

/-- The three ways on a value among words: the whole text where there are no words, else what a
fenced block of the value holds, else the value. -/
theorem parseJsonValue_around {v : JsTree} (hproper : v.Proper) (hv : v.isContainer = true)
    {before after : String} (hbefore : Unmarked before.toList) (hafter : Unmarked after.toList) :
    parseJsonValue .compat (before ++ v.text ++ after) =
      .ok (if isBlank before && isBlank after then v
        else (fencedValue .compat v.chars).getD v) := by
  obtain ⟨first, inner, last, hchars, hfirst, hlast⟩ := container_chars hv
  have hopening : isTrimmed first = false := by
    rw [isOpening, Bool.or_eq_true, beq_iff_eq, beq_iff_eq] at hfirst
    rcases hfirst with rfl | rfl <;> decide
  have hclosing : isTrimmed last = false := by
    rw [isClosing, Bool.or_eq_true, beq_iff_eq, beq_iff_eq] at hlast
    rcases hlast with rfl | rfl <;> decide
  have htrim : trimChars (before ++ v.text ++ after).toList =
      before.toList.dropWhile isTrimmed ++ v.chars ++
        (after.toList.reverse.dropWhile isTrimmed).reverse := by
    rw [String.toList_append, String.toList_append, JsTree.text, String.toList_ofList, hchars]
    exact trimChars_around hopening hclosing before.toList inner after.toList
  have hsome : before.toList.dropWhile isTrimmed ++ v.chars ++
      (after.toList.reverse.dropWhile isTrimmed).reverse ≠ [] := by
    rw [hchars]
    simp
  rw [parseJsonValue, htrim, if_neg hsome]
  by_cases hblank : before.toList.all isTrimmed = true ∧ after.toList.all isTrimmed = true
  · have hleft := List.dropWhile_eq_nil_iff.2 (List.all_eq_true.1 hblank.1)
    have hright : after.toList.reverse.dropWhile isTrimmed = [] :=
      List.dropWhile_eq_nil_iff.2 fun c hc =>
        List.all_eq_true.1 hblank.2 c (List.mem_reverse.1 hc)
    rw [isBlank, isBlank, hblank.1, hblank.2, hleft, hright, List.nil_append, List.reverse_nil,
      List.append_nil, tryParse_chars hproper]
    rfl
  · have hwords : (isBlank before && isBlank after) = false := by
      rw [← Bool.not_eq_true, Bool.and_eq_true]
      exact hblank
    have hbefore' : Unmarked (before.toList.dropWhile isTrimmed) :=
      unmarked_of_subset hbefore (List.dropWhile_subset _)
    have hafter' : Unmarked (after.toList.reverse.dropWhile isTrimmed).reverse :=
      unmarked_of_subset hafter fun c hc =>
        List.mem_reverse.1 (List.dropWhile_subset _ (List.mem_reverse.1 hc))
    have hfenced : fencedValue .compat (before.toList.dropWhile isTrimmed ++ v.chars ++
        (after.toList.reverse.dropWhile isTrimmed).reverse) = fencedValue .compat v.chars := by
      rw [fencedValue, fencedValue, extractFencedJsonText_chars hv hbefore' hafter']
    rw [tryParse_around hproper hv hbefore hblank, hfenced,
      embeddedValue_chars hproper hv hbefore', hwords]
    cases fencedValue .compat v.chars <;> rfl

/-- A value among words is read back exactly when there are no words, or when no fenced block in
the text of the value is JSON itself. -/
theorem parseJsonValue_compat_iff {v : JsTree} (hproper : v.Proper) (hv : v.isContainer = true)
    {before after : String} (hbefore : Unmarked before.toList) (hafter : Unmarked after.toList) :
    parseJsonValue .compat (before ++ v.text ++ after) = .ok v ↔
      (isBlank before = true ∧ isBlank after = true) ∨
        fencedValue .compat v.text.toList = none := by
  have htext : v.text.toList = v.chars := String.toList_ofList
  rw [parseJsonValue_around hproper hv hbefore hafter, htext, ← Bool.and_eq_true]
  cases hblank : isBlank before && isBlank after with
  | true => simp
  | false =>
      cases hfenced : fencedValue .compat v.chars with
      | none => simp
      | some w => simp [fencedValue_ne w hfenced]

theorem bracketed_string_read :
    parseJsonValue .compat ("Result: " ++ (JsTree.arr [.str (units "]```[1]")]).text ++ " done") =
      .ok (.arr [.str (units "]```[1]")]) := by
  have hfenced : extractFencedJsonText (JsTree.arr [.str (units "]```[1]")]).text.toList = none := by
    decide
  exact (parseJsonValue_compat_iff (by simp [JsTree.Proper, properTrees]) rfl
    (by decide +kernel) (by decide +kernel)).2 (.inr (by rw [fencedValue, hfenced]; rfl))

/-- An object whose only string holds a fenced number. -/
def fencedNumber : JsTree :=
  .obj [(units "a", .str (units "```1```"))]

theorem fencedNumber_lost :
    fencedNumber.Proper ∧ fencedNumber.isContainer = true ∧ Unmarked "Result: ".toList ∧
      parseJsonValue .compat ("Result: " ++ fencedNumber.text ++ "") = .ok (.num (.ofNat 1)) ∧
      parseJsonValue .compat ("Result: " ++ fencedNumber.text ++ "") ≠ .ok fencedNumber := by
  have hproper : fencedNumber.Proper := by
    rw [fencedNumber, JsTree.Proper]
    exact ⟨by decide, rfl, by simp [properEntries, JsTree.Proper]⟩
  have hcontent : extractFencedJsonText fencedNumber.chars = some ['1'] := by decide
  have hone : tryParse ['1'] = some (.num (.ofNat 1)) := rfl
  have hread : parseJsonValue .compat ("Result: " ++ fencedNumber.text ++ "") =
      .ok (.num (.ofNat 1)) := by
    rw [parseJsonValue_around hproper rfl (by decide +kernel) (by decide +kernel),
      if_neg (by decide +kernel), fencedValue, if_pos (.inr rfl), hcontent, Option.bind_some, hone]
    rfl
  refine ⟨hproper, rfl, by decide +kernel, hread, ?_⟩
  rw [hread]
  intro h
  cases h

end PiWorkflows
