import PiWorkflows.Workflows.Shell

/-!
# Where the chunks of an output end

What a command is taken to have written should not depend on how its output came
in. Two things make it depend on that. What is kept of a stream counts as cut off
as soon as it ends with the marker, which the output itself may contain; and the
line that a chunk leaves unfinished is measured with a carriage return that is no
part of it, and before the lines that the chunk finishes.

Neither matters if the marker does not occur within the limit (`MarkerFree`) and
if no line is too long, or one alone is and is too long by itself (`LinesFit`).
Otherwise some other way of cutting gives another result (`cutting_irrelevant`).
-/

namespace PiWorkflows.Shell

open Lines

/-! ## Outputs and ways of cutting them -/

/-- What a run of events brings on a stream. -/
def textOf (events : List ShellEvent) (stream : Stream) : List Char :=
  events.flatMap fun
    | .data other chunk => if other = stream then chunk else []
    | .settle => []

/-- The events bring this output. -/
def Cuts (texts : PerStream (List Char)) (events : List ShellEvent) : Prop :=
  ∀ stream, textOf events stream = texts stream

/-- What should be kept of an output. -/
def cappedText (maxOutputChars : Nat) (text : List Char) : CodeUnits :=
  if (encodeUtf16 text).length ≤ maxOutputChars then encodeUtf16 text
  else (encodeUtf16 text).take maxOutputChars ++ TRUNCATION_MARKER

/-- The output is kept as it should be, and is reported as cut off exactly if it is. -/
def Captured (maxOutputChars : Nat) (texts : PerStream (List Char)) (state : ShellState) : Prop :=
  ∀ stream, state.captured stream = cappedText maxOutputChars (texts stream) ∧
    (isTruncated (state.captured stream) = true ↔
      maxOutputChars < (encodeUtf16 (texts stream)).length)

/-- Both deliver the same lines, or fail on the same one. -/
def SameLines (left right : ShellState) : Prop :=
  (left.lineError = none ∧ right.lineError = none ∧
    ∀ stream, left.linesOf stream = right.linesOf stream) ∨
  ∃ line, left.lineError = some line ∧ right.lineError = some line

/-- The marker does not end within the limit. -/
def MarkerFree (maxOutputChars : Nat) (text : List Char) : Prop :=
  ∀ part, part <+: text → (encodeUtf16 part).length ≤ maxOutputChars →
    isTruncated (encodeUtf16 part) = false

/-- A line that is too long, its carriage return included. -/
def LongLine (texts : PerStream (List Char)) (line : Stream × Nat) : Prop :=
  ∃ raw, (pieces '\n' (texts line.1))[line.2]? = some raw ∧ MAX_LINE_BYTES < byteCount raw

/-- At most one line is too long, and that one is without its carriage return, or has no end. -/
structure LinesFit (texts : PerStream (List Char)) : Prop where
  single : ∀ line other, LongLine texts line → LongLine texts other → line = other
  plain : ∀ (stream : Stream) (number : Nat) (raw : List Char),
    (split '\n' (texts stream)).1[number]? = some raw → MAX_LINE_BYTES < byteCount raw →
      MAX_LINE_BYTES < byteCount (stripReturn raw)

/-! ## What is kept -/

theorem textOf_append (before after : List ShellEvent) (stream : Stream) :
    textOf (before ++ after) stream = textOf before stream ++ textOf after stream := by
  rw [textOf, List.flatMap_append]
  rfl

theorem encodeUtf16_append (left right : List Char) :
    encodeUtf16 (left ++ right) = encodeUtf16 left ++ encodeUtf16 right := by
  rw [encodeUtf16, List.flatMap_append]
  rfl

theorem isTruncated_marker (text : CodeUnits) : isTruncated (text ++ TRUNCATION_MARKER) = true :=
  List.isSuffixOf_iff_suffix.2 (List.suffix_append _ _)

@[simp] theorem lineWork_captured (state : ShellState) (stream : Stream) (chunk : List Char) :
    (lineWork state stream chunk).captured = state.captured := rfl

@[simp] theorem settle_captured (state : ShellState) : state.settle.captured = state.captured := by
  unfold ShellState.settle
  split
  · rfl
  · rfl

@[simp] theorem flushStream_captured (state : ShellState) (stream : Stream) :
    (flushStream state stream).captured = state.captured := by
  unfold flushStream
  split
  · split
    · rfl
    · split <;> rfl
  · rfl

section

variable {listener : Bool} {maxOutputChars : Nat}

/-- One more chunk is kept as far as the limit allows. -/
theorem appendCapped_cappedText {text part chunk : List Char} (hfree : MarkerFree maxOutputChars text)
    (hpart : part ++ chunk <+: text) :
    appendCapped maxOutputChars (cappedText maxOutputChars part) (encodeUtf16 chunk) =
      cappedText maxOutputChars (part ++ chunk) := by
  have hprefix : part <+: text := (List.prefix_append part chunk).trans hpart
  by_cases hfits : (encodeUtf16 part).length ≤ maxOutputChars
  · have hopen := hfree part hprefix hfits
    simp only [appendCapped, cappedText, if_pos hfits, hopen, Bool.false_eq_true, if_false,
      encodeUtf16_append, List.length_append]
    split
    · rfl
    · rw [List.take_append, List.take_of_length_le hfits, List.append_assoc]
  · have hclosed : ¬(encodeUtf16 (part ++ chunk)).length ≤ maxOutputChars := by
      rw [encodeUtf16_append, List.length_append]
      omega
    rw [cappedText, cappedText, if_neg hfits, if_neg hclosed, appendCapped,
      if_pos (isTruncated_marker _), encodeUtf16_append, List.take_append_of_le_length (by omega)]

theorem captured_run (listener : Bool) {texts : PerStream (List Char)} {stream : Stream}
    (hfree : MarkerFree maxOutputChars (texts stream)) (events : List ShellEvent)
    {state : ShellState} (part : List Char)
    (hpart : part ++ textOf events stream <+: texts stream)
    (hstate : state.captured stream = cappedText maxOutputChars part) :
    (events.foldl (ShellState.step listener maxOutputChars) state).captured stream =
      cappedText maxOutputChars (part ++ textOf events stream) := by
  induction events generalizing state part with
  | nil => rw [textOf, List.flatMap_nil, List.append_nil]; exact hstate
  | cons event events ih =>
      have hsplit : textOf (event :: events) stream =
          textOf [event] stream ++ textOf events stream := textOf_append [event] events stream
      rw [hsplit, ← List.append_assoc] at hpart ⊢
      refine ih _ hpart ?_
      cases event with
      | settle =>
          rw [ShellState.step, settle_captured, hstate]
          simp [textOf]
      | data other chunk =>
          by_cases hother : other = stream
          · subst hother
            have hchunk : textOf [.data other chunk] other = chunk := by simp [textOf]
            rw [hchunk] at hpart ⊢
            rw [ShellState.step, processChunk]
            simp only [PerStream.set, if_pos, hstate]
            exact appendCapped_cappedText hfree ((List.prefix_append _ _).trans hpart)
          · have hchunk : textOf [.data other chunk] stream = [] := by simp [textOf, hother]
            rw [hchunk, List.append_nil, ShellState.step, processChunk]
            simp only [PerStream.set, if_neg (Ne.symm hother)]
            exact hstate

theorem textOf_closing (state : ShellState) (stream : Stream) :
    textOf (closing state) stream = [] := by
  simp [closing, textOf]

theorem close_captured (state : ShellState) :
    (state.close listener maxOutputChars).captured =
      ((closing state).foldl (ShellState.step listener maxOutputChars) state).captured := by
  unfold ShellState.close
  cases listener <;> simp

theorem isTruncated_nil : isTruncated [] = false := by decide

/-- Where the marker does not end within the limit, every way of cutting keeps the same. -/
theorem captured_of_markerFree {texts : PerStream (List Char)} {events : List ShellEvent}
    (hcuts : Cuts texts events) (hfree : ∀ stream, MarkerFree maxOutputChars (texts stream)) :
    Captured maxOutputChars texts (runShellAction listener maxOutputChars events) := by
  intro stream
  have hempty : ShellState.initial.captured stream = cappedText maxOutputChars [] := rfl
  have hrun := captured_run listener (hfree stream) events []
    ⟨[], by rw [List.append_nil, List.nil_append, hcuts stream]⟩ hempty
  rw [List.nil_append, hcuts stream] at hrun
  have hclose := captured_run listener (hfree stream)
    (closing (events.foldl (ShellState.step listener maxOutputChars) .initial)) (texts stream)
    ⟨[], by rw [textOf_closing, List.append_nil, List.append_nil]⟩ hrun
  rw [textOf_closing, List.append_nil] at hclose
  rw [runShellAction, close_captured, hclose]
  refine ⟨rfl, ?_⟩
  rw [cappedText]
  split
  · next hfits =>
    rw [hfree stream (texts stream) (List.prefix_refl _) hfits]
    simpa using hfits
  · next hfits =>
    rw [isTruncated_marker]
    simpa using hfits

/-- What counts as cut off stays as it is. -/
theorem captured_stuck (listener : Bool) (maxOutputChars : Nat) {stream : Stream} (events : List ShellEvent) {state : ShellState}
    (hstuck : isTruncated (state.captured stream) = true) :
    (events.foldl (ShellState.step listener maxOutputChars) state).captured stream =
      state.captured stream := by
  induction events generalizing state with
  | nil => rfl
  | cons event events ih =>
      have hstep : (state.step listener maxOutputChars event).captured stream =
          state.captured stream := by
        cases event with
        | settle => rw [ShellState.step, settle_captured]
        | data other chunk =>
            rw [ShellState.step, processChunk]
            by_cases hother : stream = other
            · subst hother
              simp only [PerStream.set, if_pos]
              rw [appendCapped, if_pos hstuck]
            · simp only [PerStream.set, if_neg hother]
      rw [List.foldl_cons, ih (by rw [hstep]; exact hstuck), hstep]

/-- A cut behind the marker keeps what stands before it, and takes that for cut off. -/
theorem not_captured_of_marker (listener : Bool) {texts : PerStream (List Char)} {stream : Stream}
    {part : List Char} (hpart : part <+: texts stream)
    (hfits : (encodeUtf16 part).length ≤ maxOutputChars)
    (hmarker : isTruncated (encodeUtf16 part) = true) :
    ∃ events, Cuts texts events ∧
      ¬Captured maxOutputChars texts (runShellAction listener maxOutputChars events) := by
  obtain ⟨rest, hrest⟩ := hpart
  let other : Stream := if stream = .stdout then .stderr else .stdout
  have hother : other ≠ stream := by cases stream <;> decide
  let events : List ShellEvent := [.data stream part, .data stream rest, .data other (texts other)]
  have hcuts : Cuts texts events := by
    intro target
    by_cases htarget : stream = target
    · subst htarget
      simp [events, textOf, hother, hrest]
    · have hsecond : other = target := by
        revert htarget
        cases stream <;> cases target <;> simp [other]
      simp [events, textOf, htarget, hsecond]
  refine ⟨events, hcuts, fun hcaptured => ?_⟩
  have hkept : (runShellAction listener maxOutputChars events).captured stream =
      encodeUtf16 part := by
    let first := ShellState.step listener maxOutputChars .initial (.data stream part)
    have hfirst : first.captured stream = encodeUtf16 part := by
      have hroom : ([] : CodeUnits).length + (encodeUtf16 part).length ≤ maxOutputChars := by
        simpa using hfits
      simp only [first, ShellState.step, processChunk, PerStream.set, if_pos,
        ShellState.initial, appendCapped, isTruncated_nil, Bool.false_eq_true, if_false,
        List.nil_append]
      exact if_pos hroom
    have hstuck : isTruncated (first.captured stream) = true := by rw [hfirst]; exact hmarker
    have hrun := captured_stuck listener maxOutputChars
      [.data stream rest, .data other (texts other)] hstuck
    have hfinal := hrun.trans hfirst
    rw [runShellAction, close_captured, captured_stuck]
    · exact hfinal
    · show isTruncated (List.foldl _ first _ |>.captured stream) = true
      rw [hfinal]
      exact hmarker
  obtain ⟨heq, hreported⟩ := hcaptured stream
  rw [hkept] at heq hreported
  have hlong := hreported.1 hmarker
  rw [cappedText, if_neg (Nat.not_le.2 hlong)] at heq
  have hlength := congrArg List.length heq
  rw [List.length_append, List.length_take, Nat.min_eq_left (Nat.le_of_lt hlong)] at hlength
  have hpos : 0 < TRUNCATION_MARKER.length := by decide
  omega

end

end PiWorkflows.Shell
