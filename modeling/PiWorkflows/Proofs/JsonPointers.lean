import PiWorkflows.Workflows.PatchStandard

/-!
# JSON Pointers, read and written

`parseJsonPointer` cuts a text at its slashes and undoes the escapes of every
segment. On the texts that are short enough it accepts what RFC 6901 calls a
pointer and nothing else (`parseJsonPointer_iff`), and `encodeJsonPointer` writes
the only text that reads as the names it is given (`pointer_iff`).
-/

namespace PiWorkflows

open Fallible Rfc6902

/-! ## Segments -/

theorem Rfc6902.Token.noSlash {text name : List Char} (h : Token text name) : '/' ∉ text := by
  induction h with
  | done => exact List.not_mem_nil
  | tilde _ ih | slash _ ih =>
      intro hmem
      simp only [List.mem_cons, Char.reduceEq, false_or] at hmem
      exact ih hmem
  | plain _ hslash _ ih =>
      intro hmem
      rcases List.mem_cons.1 hmem with heq | hmem
      · exact hslash heq.symm
      · exact ih hmem

theorem unescapeSegment_of_token {text name : List Char} (h : Token text name) :
    unescapeSegment text = some name := by
  induction h with
  | done => rfl
  | tilde _ ih => simp [unescapeSegment, ih]
  | slash _ ih => simp [unescapeSegment, ih]
  | plain htilde _ _ ih => simp [unescapeSegment, ih, htilde]

theorem token_of_unescapeSegment {text name : List Char} (h : unescapeSegment text = some name)
    (hslash : '/' ∉ text) : Token text name := by
  induction text using unescapeSegment.induct generalizing name with
  | case1 =>
      cases h
      exact .done
  | case2 rest ih =>
      obtain ⟨name, hrest, rfl⟩ := Option.map_eq_some_iff.1 h
      exact .tilde (ih hrest fun hmem => hslash (by simp [hmem]))
  | case3 rest ih =>
      obtain ⟨name, hrest, rfl⟩ := Option.map_eq_some_iff.1 h
      exact .slash (ih hrest fun hmem => hslash (by simp [hmem]))
  | case4 rest hzero hone =>
      -- a tilde with neither escape behind it
      rw [unescapeSegment] at h
      · cases h
      · exact hzero
      · exact hone
  | case5 c rest _ _ htilde ih =>
      have hc : c ≠ '~' := fun heq => htilde heq
      rw [unescapeSegment] at h
      · obtain ⟨name, hrest, rfl⟩ := Option.map_eq_some_iff.1 h
        refine .plain hc (fun heq => hslash (heq ▸ List.mem_cons_self)) (ih hrest fun hmem => ?_)
        exact hslash (List.mem_cons_of_mem _ hmem)
      all_goals assumption

/-- A name with its tildes and slashes escaped. -/
def escapedName (name : List Char) : List Char :=
  name.flatMap fun c => if c = '~' then ['~', '0'] else if c = '/' then ['~', '1'] else [c]

theorem token_iff {text name : List Char} : Token text name ↔ text = escapedName name := by
  constructor
  · intro h
    induction h with
    | done => rfl
    | tilde _ ih | slash _ ih => simp [escapedName, ih]
    | plain htilde hslash _ ih => simp [escapedName, ih, htilde, hslash]
  · rintro rfl
    induction name with
    | nil => exact .done
    | cons c rest ih =>
        rw [escapedName, List.flatMap_cons]
        split
        · next heq =>
            subst heq
            exact .tilde ih
        · next htilde =>
            split
            · next heq =>
                subst heq
                exact .slash ih
            · next hslash => exact .plain htilde hslash ih

/-! ## Pointers -/

/-- The segments behind a slash, read one by one, are a pointer. -/
theorem pointer_segments {message : String} {text : List Char} {names : List String}
    (h : (text.splitOn '/').mapM (fun segment =>
      orThrow message ((unescapeSegment segment).map String.ofList)) = .ok names) :
    Pointer ('/' :: text) names := by
  induction hn : text.length using Nat.strong_induction_on generalizing text names with
  | _ n ih =>
      by_cases hslash : '/' ∈ text
      · obtain ⟨first, rest, rfl, hfirst⟩ := List.eq_append_cons_of_mem hslash
        rw [List.splitOn_append_cons_self_of_not_mem hfirst, List.mapM_cons] at h
        simp only [bind_ok, pure_ok, orThrow_ok, Option.map_eq_some_iff] at h
        obtain ⟨_, ⟨name, hname, rfl⟩, others, hothers, rfl⟩ := h
        have hlength : rest.length < n := by simp [← hn]; omega
        exact .token (token_of_unescapeSegment hname hfirst) (ih _ hlength hothers rfl)
      · rw [List.splitOn_eq_singleton hslash, List.mapM_cons, List.mapM_nil] at h
        simp only [bind_ok, pure_ok, orThrow_ok, Option.map_eq_some_iff] at h
        obtain ⟨_, ⟨name, hname, rfl⟩, _, rfl, rfl⟩ := h
        have hpointer := Pointer.token (token_of_unescapeSegment hname hslash) .root
        rwa [List.append_nil] at hpointer

theorem segments_pointer (message : String) {pointer : List Char} {names : List String}
    (h : Pointer pointer names) (text : List Char) (htext : pointer = '/' :: text) :
    (text.splitOn '/').mapM (fun segment =>
      orThrow message ((unescapeSegment segment).map String.ofList)) = .ok names := by
  induction h generalizing text with
  | root => cases htext
  | @token first name rest others hfirst hrest ih =>
      obtain rfl : first ++ rest = text := (List.cons.inj htext).2
      cases rest with
      | nil =>
          cases hrest
          rw [List.append_nil, List.splitOn_eq_singleton hfirst.noSlash]
          simp [unescapeSegment_of_token hfirst, orThrow]
      | cons c rest =>
          have hc : c = '/' := by cases hrest; rfl
          subst hc
          rw [List.splitOn_append_cons_self_of_not_mem hfirst.noSlash, List.mapM_cons,
            ih rest rfl, unescapeSegment_of_token hfirst]
          rfl

theorem parseJsonPointer_iff {pointer : String} {names : List String} :
    parseJsonPointer pointer = .ok names ↔
      byteLength pointer ≤ maxJsonPointerBytes ∧ Pointer pointer.toList names := by
  unfold parseJsonPointer
  split
  · next hlong => exact iff_of_false nofun fun h => absurd h.1 (by omega)
  · next hshort =>
      rw [and_iff_right (by omega)]
      split
      · next hnil =>
          rw [hnil]
          constructor
          · rintro ⟨⟩
            exact .root
          · rintro ⟨⟩
            rfl
      · next rest hslash =>
          rw [hslash]
          exact ⟨pointer_segments, fun h => segments_pointer _ h rest rfl⟩
      · next hnil hslash =>
          refine iff_of_false nofun fun h => ?_
          generalize htext : pointer.toList = text at h
          cases h with
          | root => exact hnil htext
          | token => exact hslash _ htext

/-- A list of names, each behind a slash. -/
theorem toList_encodeJsonPointer (names : List String) :
    (encodeJsonPointer names).toList = names.flatMap fun name => '/' :: escapedName name.toList := by
  have hsegments : ∀ rest : List String, rest ≠ [] →
      '/' :: ['/'].intercalate ((rest.map encodeSegment).map String.toList) =
        rest.flatMap fun name => '/' :: escapedName name.toList := by
    intro rest hrest
    induction rest with
    | nil => exact absurd rfl hrest
    | cons name rest ih =>
        cases rest with
        | nil => simp [encodeSegment, escapedName, List.intercalate]
        | cons next more =>
            have ih := ih (List.cons_ne_nil _ _)
            rw [List.flatMap_cons, ← ih]
            simp [encodeSegment, escapedName, List.intercalate]
  unfold encodeJsonPointer
  split
  · next hnil =>
      subst hnil
      rfl
  · next hne =>
      rw [← hsegments names hne]
      simp [joinText, String.toList_append]

theorem pointer_iff {text : List Char} {names : List String} :
    Pointer text names ↔ text = (encodeJsonPointer names).toList := by
  rw [toList_encodeJsonPointer]
  constructor
  · intro h
    induction h with
    | root => rfl
    | token hfirst _ ih =>
        rw [List.flatMap_cons, ← ih, String.toList_ofList, ← token_iff.1 hfirst]
  · rintro rfl
    induction names with
    | nil => exact .root
    | cons name rest ih =>
        have hpointer := Pointer.token (token_iff.2 (rfl : _ = escapedName name.toList)) ih
        rwa [String.ofList_toList] at hpointer

/-- A pointer denotes one location. -/
theorem pointer_unique {text : List Char} {names names' : List String} (h : Pointer text names)
    (h' : Pointer text names') : names = names' := by
  cases text with
  | nil =>
      cases h
      cases h'
      rfl
  | cons c rest =>
      have hc : c = '/' := by cases h; rfl
      subst hc
      have hread := segments_pointer "" h rest rfl
      rw [segments_pointer "" h' rest rfl] at hread
      exact (Except.ok.inj hread).symm

/-- What a pointer was read as is written as the pointer again. -/
theorem encodeJsonPointer_parse {pointer : String} {names : List String}
    (h : parseJsonPointer pointer = .ok names) : encodeJsonPointer names = pointer :=
  String.toList_injective (pointer_iff.1 (parseJsonPointer_iff.1 h).2).symm

/-- What names are written as is read as the names again, if it is not too long. -/
theorem parseJsonPointer_encode {names : List String}
    (h : byteLength (encodeJsonPointer names) ≤ maxJsonPointerBytes) :
    parseJsonPointer (encodeJsonPointer names) = .ok names :=
  parseJsonPointer_iff.2 ⟨h, pointer_iff.2 rfl⟩

end PiWorkflows
