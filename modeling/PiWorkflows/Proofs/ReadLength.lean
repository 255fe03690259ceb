import PiWorkflows.Proofs.ValueText
import Mathlib.Algebra.GroupWithZero.Nat

/-!
# What is read is not longer than its text

`JSON.stringify` has the shortest spelling of every string and writes no space,
and an object keeps at most one of several members of a name. So the data that
`JSON.parse` reads from the front of a text take no more characters to print
than were read (`length_of_readTree`).
-/

namespace PiWorkflows

/-! ## Strings -/

theorem length_quoteUnit_le (u : UInt16) : (quoteUnit u).length ≤ 6 := by
  unfold quoteUnit
  split
  · exact Nat.le_refl 6
  · unfold escapeChar
    repeat' split
    all_goals simp

/-- A unit is written on its own or together with the one behind it. -/
theorem length_quoteUnits_cons (u : UInt16) (s : CodeUnits) :
    (quoteUnits (u :: s)).length ≤ (quoteUnit u).length + (quoteUnits s).length := by
  cases s with
  | nil => rw [quoteUnits]; exact Nat.le_add_right _ _
  | cons v rest =>
      rw [quoteUnits]
      split
      · next hpair =>
          rw [Bool.and_eq_true] at hpair
          obtain ⟨d, ds, hd⟩ := quoteUnit_head u
          have hrest : (quoteUnits rest).length ≤ (quoteUnits (v :: rest)).length := by
            have hlead : isLeadSurrogate v = false := by
              have hv := hpair.2
              simp only [isLeadSurrogate, isTrailSurrogate, Bool.and_eq_true, decide_eq_true_eq,
                Bool.and_eq_false_iff, decide_eq_false_iff_not] at hv ⊢
              omega
            cases rest with
            | nil => exact Nat.zero_le _
            | cons w rest =>
                rw [quoteUnits.eq_3, if_neg (by simp [hlead]), List.length_append]
                exact Nat.le_add_left _ _
          rw [List.length_cons, hd, List.length_cons]
          omega
      · rw [List.length_append]

theorem length_of_readUnit {text rest : List Char} {n : Nat}
    (h : readUnit text = some (n, rest)) : rest.length + 4 = text.length := by
  unfold readUnit at h
  split at h
  · next a b c d tail =>
      simp only [Option.bind_eq_bind, Option.bind_eq_some_iff, Option.some.injEq,
        Prod.mk.injEq] at h
      obtain ⟨_, _, _, _, _, _, _, _, _, rfl⟩ := h
      rfl
  · cases h

theorem length_of_shortEscape {u : UInt16} (c : Char) (h : (quoteUnit u).length ≤ 2)
    (rest : List Char) : (quoteUnit u).length + rest.length ≤ (c :: rest).length + 1 := by
  rw [List.length_cons]
  omega

theorem length_of_readEscapedUnit {text rest : List Char} {u : UInt16}
    (h : readEscapedUnit text = some (u, rest)) :
    (quoteUnit u).length + rest.length ≤ text.length + 1 := by
  unfold readEscapedUnit at h
  split at h
  case h_9 tail =>
    rw [Option.map_eq_some_iff] at h
    obtain ⟨r, hread, hr⟩ := h
    cases hr
    have hlength : r.2.length + 4 = tail.length := length_of_readUnit hread
    have hunit := length_quoteUnit_le (UInt16.ofNat r.1)
    rw [List.length_cons]
    omega
  case h_10 => cases h
  all_goals
    cases h
    exact length_of_shortEscape _ (by decide) _

/-- A character that is written as it is. -/
theorem length_encodeChar (c : Char) (hquote : c ≠ '"') (hback : c ≠ '\\')
    (hprint : ¬c.toNat < 0x20) (s : CodeUnits) :
    (quoteUnits (encodeChar c ++ s)).length ≤ (quoteUnits s).length + 1 := by
  rcases encodeChar_cases c with ⟨u, hu, hsingle⟩ | ⟨u, v, huv, hlead, htrail⟩
  · have hchar : unitChar u = c := by
      have hdecode := decode_encodeChar c []
      rw [hu] at hdecode
      exact (List.cons.inj hdecode).1
    have hunit : quoteUnit u = [c] := by
      rw [quoteUnit, if_neg (by rw [hsingle]; exact Bool.false_ne_true), hchar, escapeChar,
        if_neg hquote, if_neg hback]
      have hne : ∀ d : Char, d.toNat < 0x20 → c ≠ d := fun d hd heq => hprint (heq ▸ hd)
      rw [if_neg (hne _ (by decide)), if_neg (hne _ (by decide)), if_neg (hne _ (by decide)),
        if_neg (by omega), if_neg (by omega), if_neg hprint]
    have hcons := length_quoteUnits_cons u s
    rw [hunit, List.length_singleton] at hcons
    rw [hu, List.singleton_append]
    omega
  · rw [huv, List.cons_append, List.singleton_append, quoteUnits, if_pos (by rw [hlead, htrail]; rfl)]
    exact Nat.le_refl _

theorem length_of_readUnits {fuel : Nat} {text rest : List Char} {s : CodeUnits}
    (h : readUnits fuel text = some (s, rest)) :
    (quoteUnits s).length + 1 + rest.length ≤ text.length := by
  fun_induction readUnits fuel text generalizing s rest with
  | case1 => cases h
  | case2 => cases h
  | case3 fuel text =>
      cases h
      rw [quoteUnits, List.length_nil, List.length_cons]
      omega
  | case4 fuel text hquote ih =>
      simp only [Option.bind_eq_bind, Option.bind_eq_some_iff, Option.some.injEq,
        Prod.mk.injEq] at h
      obtain ⟨⟨u, behind⟩, hescape, ⟨us, last⟩, hread, rfl, rfl⟩ := h
      have hunit := length_of_readEscapedUnit hescape
      have hrest := ih _ hread
      have hcons := length_quoteUnits_cons u us
      show (quoteUnits (u :: us)).length + 1 + last.length ≤ text.length + 1
      dsimp only at hrest
      omega
  | case5 => cases h
  | case6 fuel c text hquote hback hprint ih =>
      simp only [Option.bind_eq_bind, Option.bind_eq_some_iff, Option.some.injEq,
        Prod.mk.injEq] at h
      obtain ⟨⟨us, last⟩, hread, rfl, rfl⟩ := h
      have hrest := ih hread
      have hchar := length_encodeChar c hquote hback hprint us
      show (quoteUnits (encodeChar c ++ us)).length + 1 + last.length ≤ text.length + 1
      omega

/-! ## Members -/

/-- What a member takes in an object, with the sign behind it. -/
def memberWeight (e : CodeUnits × JsTree) : Nat :=
  (literal e.1).length + 1 + e.2.chars.length + 1

theorem length_membersChars {members : List (CodeUnits × JsTree)} (h : members ≠ []) :
    (membersChars members).length + 1 = (members.map memberWeight).sum := by
  induction members with
  | nil => exact absurd rfl h
  | cons e rest ih =>
      obtain ⟨k, x⟩ := e
      cases rest with
      | nil =>
          rw [membersChars, List.length_append, List.length_cons, List.map_singleton,
            List.sum_singleton, memberWeight]
          dsimp only
          omega
      | cons e rest =>
          have htail := ih (List.cons_ne_nil e rest)
          rw [membersChars, List.length_append, List.length_cons, List.length_append,
            List.length_cons, List.map_cons, List.sum_cons, memberWeight]
          dsimp only
          omega

theorem weight_setKey_le (k : CodeUnits) (x : JsTree) (object : List (CodeUnits × JsTree)) :
    ((Assoc.setKey k x object).map memberWeight).sum ≤
      (object.map memberWeight).sum + memberWeight (k, x) := by
  induction object with
  | nil => exact Nat.le_of_eq (Nat.add_comm _ _)
  | cons e rest ih =>
      obtain ⟨k', y⟩ := e
      rw [Assoc.setKey]
      split
      · next h =>
          subst h
          simp only [List.map_cons, List.sum_cons]
          omega
      · simp only [List.map_cons, List.sum_cons]
        omega

theorem weight_fromEntries_le (entries : List (CodeUnits × JsTree)) :
    ((fromEntries entries).map memberWeight).sum ≤ (entries.map memberWeight).sum := by
  have hfold : ∀ object : List (CodeUnits × JsTree),
      ((entries.foldl (fun object e => Assoc.setKey e.1 e.2 object) object).map memberWeight).sum ≤
        (object.map memberWeight).sum + (entries.map memberWeight).sum := by
    induction entries with
    | nil => exact fun object => Nat.le_refl _
    | cons e rest ih =>
        intro object
        obtain ⟨k, x⟩ := e
        have hstep := weight_setKey_le k x object
        have hrest := ih (Assoc.setKey k x object)
        rw [List.foldl_cons, List.map_cons, List.sum_cons]
        dsimp only at hrest ⊢
        omega
  have hperm := (perm_enumerated
    (entries.foldl (fun object e => Assoc.setKey e.1 e.2 object) [])).map memberWeight
  rw [fromEntries, hperm.sum_nat]
  exact (hfold []).trans (by simp)

theorem chars_fromEntries_le {entries : List (CodeUnits × JsTree)} (h : entries ≠ []) :
    (JsTree.obj (fromEntries entries)).chars.length ≤ (entries.map memberWeight).sum + 1 := by
  have hweight := weight_fromEntries_le entries
  rw [JsTree.chars, List.length_cons, List.length_append, List.length_singleton]
  by_cases hnone : fromEntries entries = []
  · have hsome : 1 ≤ (entries.map memberWeight).sum := by
      obtain ⟨e, rest, rfl⟩ := List.exists_cons_of_ne_nil h
      rw [List.map_cons, List.sum_cons, memberWeight]
      omega
    rw [hnone, membersChars, List.length_nil]
    omega
  · have hlength := length_membersChars hnone
    omega

theorem length_itemsChars {items : List JsTree} (h : items ≠ []) :
    (itemsChars items).length + 1 = (items.map fun x => x.chars.length + 1).sum := by
  induction items with
  | nil => exact absurd rfl h
  | cons x rest ih =>
      cases rest with
      | nil => simp [itemsChars]
      | cons y rest =>
          have htail := ih (List.cons_ne_nil y rest)
          rw [itemsChars, List.length_append, List.length_cons, List.map_cons, List.sum_cons]
          omega

/-! ## Values -/

theorem length_skipSpace_le (text : List Char) : (skipSpace text).length ≤ text.length :=
  (List.dropWhile_suffix _).length_le

/-- What is left of a text is shorter by what was read from it. -/
structure ReadsWithin (fuel : Nat) : Prop where
  tree : ∀ {text t rest}, readTree fuel text = some (t, rest) →
    t.chars.length + rest.length ≤ text.length
  items : ∀ {text items rest}, readTreeItems fuel text = some (items, rest) →
    items ≠ [] ∧ (items.map fun x => x.chars.length + 1).sum + rest.length ≤ text.length
  members : ∀ {text members rest}, readTreeMembers fuel text = some (members, rest) →
    members ≠ [] ∧ (members.map memberWeight).sum + rest.length ≤ text.length

theorem length_of_readNumeral {text rest : List Char} {t : JsTree}
    (h : readNumeral text = some (t, rest)) : t.chars.length + rest.length = text.length := by
  unfold readNumeral at h
  split at h
  · cases h
    rw [JsTree.chars, String.toList_ofList, ← List.length_append,
      List.takeWhile_append_dropWhile]
  · cases h

theorem readTree_within {fuel : Nat} (h : ReadsWithin fuel) {text rest : List Char} {t : JsTree}
    (hread : readTree (fuel + 1) text = some (t, rest)) :
    t.chars.length + rest.length ≤ text.length := by
  have hspace := length_skipSpace_le text
  rw [readTree] at hread
  split at hread
  case h_1 tail heq =>
    cases hread
    rw [heq] at hspace
    exact (Nat.add_comm _ _).trans_le hspace
  case h_2 tail heq =>
    cases hread
    rw [heq] at hspace
    exact (Nat.add_comm _ _).trans_le hspace
  case h_3 tail heq =>
    cases hread
    rw [heq] at hspace
    exact (Nat.add_comm _ _).trans_le hspace
  case h_4 tail heq =>
    rw [Option.bind_eq_bind, Option.bind_eq_some_iff] at hread
    obtain ⟨⟨s, behind⟩, hunits, hvalue⟩ := hread
    cases hvalue
    have hlength := length_of_readUnits hunits
    rw [heq, List.length_cons] at hspace
    rw [JsTree.chars, literal, List.length_cons, List.length_append, List.length_singleton]
    omega
  case h_5 tail heq =>
    have hinner := length_skipSpace_le tail
    rw [heq, List.length_cons] at hspace
    split at hread
    · next behind hclose =>
        cases hread
        rw [hclose, List.length_cons] at hinner
        rw [JsTree.chars, itemsChars]
        simp only [List.nil_append, List.length_cons, List.length_nil]
        omega
    · rw [Option.bind_eq_bind, Option.bind_eq_some_iff] at hread
      obtain ⟨⟨items, behind⟩, hitems, hvalue⟩ := hread
      cases hvalue
      obtain ⟨hsome, hsum⟩ := h.items hitems
      have hlength := length_itemsChars hsome
      rw [JsTree.chars, List.length_cons, List.length_append, List.length_singleton]
      omega
  case h_6 tail heq =>
    have hinner := length_skipSpace_le tail
    rw [heq, List.length_cons] at hspace
    split at hread
    · next behind hclose =>
        cases hread
        rw [hclose, List.length_cons] at hinner
        rw [JsTree.chars, membersChars]
        simp only [List.nil_append, List.length_cons, List.length_nil]
        omega
    · rw [Option.bind_eq_bind, Option.bind_eq_some_iff] at hread
      obtain ⟨⟨members, behind⟩, hmembers, hvalue⟩ := hread
      cases hvalue
      obtain ⟨hsome, hsum⟩ := h.members hmembers
      have hlength := chars_fromEntries_le hsome
      omega
  case h_7 => exact (length_of_readNumeral hread).trans_le hspace

theorem readTreeItems_within {fuel : Nat} (h : ReadsWithin fuel) {text rest : List Char}
    {items : List JsTree} (hread : readTreeItems (fuel + 1) text = some (items, rest)) :
    items ≠ [] ∧ (items.map fun x => x.chars.length + 1).sum + rest.length ≤ text.length := by
  rw [readTreeItems, Option.bind_eq_bind, Option.bind_eq_some_iff] at hread
  obtain ⟨⟨x, behind⟩, hx, hread⟩ := hread
  have hfirst := h.tree hx
  have hspace := length_skipSpace_le behind
  dsimp only at hread
  split at hread
  · next tail heq =>
      rw [Option.bind_eq_bind, Option.bind_eq_some_iff] at hread
      obtain ⟨⟨xs, last⟩, hxs, hvalue⟩ := hread
      cases hvalue
      have hsum := (h.items hxs).2
      rw [heq, List.length_cons] at hspace
      refine ⟨List.cons_ne_nil _ _, ?_⟩
      rw [List.map_cons, List.sum_cons]
      dsimp only at hsum ⊢
      omega
  · next tail heq =>
      cases hread
      rw [heq, List.length_cons] at hspace
      refine ⟨List.cons_ne_nil _ _, ?_⟩
      rw [List.map_singleton, List.sum_singleton]
      omega
  · cases hread

theorem readTreeMembers_within {fuel : Nat} (h : ReadsWithin fuel) {text rest : List Char}
    {members : List (CodeUnits × JsTree)}
    (hread : readTreeMembers (fuel + 1) text = some (members, rest)) :
    members ≠ [] ∧ (members.map memberWeight).sum + rest.length ≤ text.length := by
  have houter := length_skipSpace_le text
  rw [readTreeMembers] at hread
  split at hread
  · next tail hquote =>
      rw [hquote, List.length_cons] at houter
      rw [Option.bind_eq_bind, Option.bind_eq_some_iff] at hread
      obtain ⟨⟨k, behind⟩, hk, hread⟩ := hread
      have hname := length_of_readUnits hk
      have hcolon := length_skipSpace_le behind
      dsimp only at hread
      split at hread
      · next tail heq =>
          rw [heq, List.length_cons] at hcolon
          rw [Option.bind_eq_bind, Option.bind_eq_some_iff] at hread
          obtain ⟨⟨x, behind⟩, hx, hread⟩ := hread
          have hvalue := h.tree hx
          have hspace := length_skipSpace_le behind
          have hweight : memberWeight (k, x) =
              (quoteUnits k).length + 2 + 1 + x.chars.length + 1 := by
            rw [memberWeight, literal, List.length_cons, List.length_append,
              List.length_singleton]
          dsimp only at hread
          split at hread
          · next tail heq =>
              rw [Option.bind_eq_bind, Option.bind_eq_some_iff] at hread
              obtain ⟨⟨more, last⟩, hmore, hresult⟩ := hread
              cases hresult
              have hsum := (h.members hmore).2
              rw [heq, List.length_cons] at hspace
              refine ⟨List.cons_ne_nil _ _, ?_⟩
              rw [List.map_cons, List.sum_cons, hweight]
              dsimp only at hsum ⊢
              omega
          · next tail heq =>
              cases hread
              rw [heq, List.length_cons] at hspace
              refine ⟨List.cons_ne_nil _ _, ?_⟩
              rw [List.map_singleton, List.sum_singleton, hweight]
              omega
          · cases hread
      · cases hread
  · cases hread

theorem readsWithin (fuel : Nat) : ReadsWithin fuel := by
  induction fuel with
  | zero =>
      refine ⟨?_, ?_, ?_⟩
      all_goals
        intro text value rest h
        cases h
  | succ fuel ih =>
      exact ⟨readTree_within ih, readTreeItems_within ih, readTreeMembers_within ih⟩

/-- The data that a text says take no more characters than the text has. -/
theorem length_of_parse {text : String} {t : JsTree} (h : JsTree.parse text = some t) :
    t.chars.length ≤ text.toList.length := by
  rw [JsTree.parse, Option.bind_eq_bind, Option.bind_eq_some_iff] at h
  obtain ⟨⟨v, rest⟩, hread, hv⟩ := h
  have hlength := (readsWithin _).tree hread
  dsimp only at hv
  split at hv
  · cases hv
    omega
  · cases hv

end PiWorkflows
