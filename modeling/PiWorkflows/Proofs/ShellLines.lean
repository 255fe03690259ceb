import PiWorkflows.Proofs.ShellOutput

/-!
# The lines of an output, however it is cut

What the works have read of a stream so far is a start of it (`read`). Its lines
are lines of the stream, and what stands behind the last of them begins the next
one, so whatever line a work fails on is too long as a line of the stream. As
long as none has failed, the listener was given the lines of what was read.
-/

namespace PiWorkflows.Shell

open Lines

/-! ## Lines that are too long -/

theorem byteCount_append (left right : List Char) :
    byteCount (left ++ right) = byteCount left + byteCount right := by
  rw [byteCount, List.map_append, List.sum_append]
  rfl

theorem byteCount_stripReturn (raw : List Char) : byteCount (stripReturn raw) ≤ byteCount raw := by
  unfold stripReturn
  split
  · next hlast =>
    obtain ⟨before, rfl⟩ := List.getLast?_eq_some_iff.1 hlast
    rw [List.dropLast_concat, byteCount_append]
    omega
  · exact Nat.le_refl _

section

variable {texts : PerStream (List Char)} {stream : Stream} {read : List Char}

/-- What a chunk leaves unfinished begins a line of the stream. -/
theorem longLine_of_unfinished (hread : read <+: texts stream)
    (hlong : MAX_LINE_BYTES < byteCount (split '\n' read).2) :
    LongLine texts (stream, (split '\n' read).1.length) := by
  obtain ⟨rest, hrest⟩ := hread
  obtain ⟨more, others, hpieces⟩ := pieces_append_of_notMem (notMem_split read) rest
  refine ⟨(split '\n' read).2 ++ more, ?_, by rw [byteCount_append]; omega⟩
  rw [← hrest, pieces_append, hpieces, List.getElem?_append_right (Nat.le_refl _), Nat.sub_self]
  rfl

theorem longLine_of_finished (hread : read <+: texts stream) {number : Nat} {raw : List Char}
    (hraw : (split '\n' read).1[number]? = some raw) (hlong : MAX_LINE_BYTES < byteCount raw) :
    LongLine texts (stream, number) := by
  obtain ⟨rest, hrest⟩ := hread
  refine ⟨raw, ?_, hlong⟩
  have hlt : number < (split '\n' read).1.length := (List.getElem?_eq_some_iff.1 hraw).1
  rw [← hrest, pieces_append, List.getElem?_append_left hlt]
  exact hraw

end

theorem deliver_none {number : Nat} {parts : List (List Char)}
    (h : (deliver number parts).2 = none) :
    (deliver number parts).1 = parts.map stripReturn ∧
      ∀ raw ∈ parts, byteCount (stripReturn raw) ≤ MAX_LINE_BYTES := by
  induction parts generalizing number with
  | nil => exact ⟨rfl, fun raw hraw => absurd hraw List.not_mem_nil⟩
  | cons raw rest ih =>
      rw [deliver] at h ⊢
      split at h
      · cases h
      · next hfits =>
        rw [if_neg hfits]
        obtain ⟨hlines, hrest⟩ := ih h
        refine ⟨by rw [List.map_cons, hlines], List.forall_mem_cons.2 ⟨?_, hrest⟩⟩
        omega

theorem deliver_some {number line : Nat} {parts : List (List Char)}
    (h : (deliver number parts).2 = some line) :
    ∃ k raw, parts[k]? = some raw ∧ line = number + k ∧
      MAX_LINE_BYTES < byteCount (stripReturn raw) := by
  induction parts generalizing number with
  | nil => cases h
  | cons raw rest ih =>
      rw [deliver] at h
      split at h
      · next hlong =>
        cases h
        exact ⟨0, raw, rfl, rfl, hlong⟩
      · obtain ⟨k, raw', hraw, rfl, hlong⟩ := ih h
        exact ⟨k + 1, raw', hraw, by omega, hlong⟩

theorem deliver_fits {number : Nat} {parts : List (List Char)}
    (h : ∀ raw ∈ parts, byteCount (stripReturn raw) ≤ MAX_LINE_BYTES) :
    (deliver number parts).2 = none := by
  induction parts generalizing number with
  | nil => rfl
  | cons raw rest ih =>
      obtain ⟨hraw, hrest⟩ := List.forall_mem_cons.1 h
      rw [deliver, if_neg (Nat.not_lt.2 hraw)]
      exact ih hrest

/-! ## What the works have read -/

/-- What the waiting works hold of a stream. -/
def pendingText (pending : List (Stream × List Char)) (stream : Stream) : List Char :=
  pending.flatMap fun work => if work.1 = stream then work.2 else []

/-- The state behind works that have read so much, of what has arrived. -/
structure Reading (texts arrived read : PerStream (List Char)) (state : ShellState) : Prop where
  buffers : ∀ stream, state.lineBuffers stream = (split '\n' (read stream)).2
  finished : ∀ stream, state.finished stream = (split '\n' (read stream)).1.length
  within : ∀ stream, read stream ++ pendingText state.pending stream <+: texts stream
  failed : ∀ line, state.lineError = some line → LongLine texts line
  current : state.lineError = none → ∀ stream,
    read stream ++ pendingText state.pending stream = arrived stream
  delivered : state.lineError = none → ∀ stream,
    state.linesOf stream = (split '\n' (read stream)).1.map stripReturn
  fits : state.lineError = none → ∀ stream, ∀ raw ∈ (split '\n' (read stream)).1,
    byteCount (stripReturn raw) ≤ MAX_LINE_BYTES

section

variable {texts arrived read : PerStream (List Char)} {state : ShellState} (maxOutputChars : Nat)

theorem reading_initial (texts : PerStream (List Char)) :
    Reading texts (fun _ => []) (fun _ => []) .initial where
  buffers := fun _ => rfl
  finished := fun _ => rfl
  within := fun _ => List.nil_prefix
  failed := fun _ h => by cases h
  current := fun _ _ => rfl
  delivered := fun _ _ => rfl
  fits := fun _ _ _ hraw => absurd hraw List.not_mem_nil

/-- A chunk that arrives waits for its work. -/
theorem Reading.data (hreading : Reading texts arrived read state) (stream : Stream)
    (chunk : List Char) (hwithin : arrived stream ++ chunk <+: texts stream) :
    Reading texts (arrived.set stream (arrived stream ++ chunk)) read
      (processChunk true maxOutputChars state stream chunk) := by
  by_cases herror : state.lineError = none
  · have hpending : (processChunk true maxOutputChars state stream chunk).pending =
        state.pending ++ [(stream, chunk)] := if_pos ⟨rfl, herror⟩
    have htext : ∀ other, read other ++ pendingText (state.pending ++ [(stream, chunk)]) other =
        arrived.set stream (arrived stream ++ chunk) other := by
      intro other
      rw [pendingText, List.flatMap_append, ← List.append_assoc, PerStream.set]
      have hcurrent := hreading.current herror other
      rw [pendingText] at hcurrent
      rw [hcurrent]
      by_cases hother : other = stream
      · subst hother
        simp
      · simp [hother, Ne.symm hother]
    refine { hreading with within := ?_, current := ?_ }
    · intro other
      rw [hpending, htext, PerStream.set]
      split
      · next hother => rw [hother]; exact hwithin
      · rw [← hreading.current herror other]
        exact hreading.within other
    · intro _ other
      rw [hpending, htext]
  · have hpending : (processChunk true maxOutputChars state stream chunk).pending =
        state.pending := if_neg fun h => herror h.2
    refine { hreading with within := ?_, current := fun h => absurd h herror }
    intro other
    rw [hpending]
    exact hreading.within other

theorem linesOf_work (state : ShellState) (stream other : Stream) (chunk : List Char)
    {added : List (List Char)}
    (h : (lineWork state stream chunk).lines = state.lines ++ added.map fun text => (stream, text)) :
    (lineWork state stream chunk).linesOf other =
      state.linesOf other ++ if other = stream then added else [] := by
  rw [ShellState.linesOf, h, List.filter_append, List.map_append, ShellState.linesOf]
  congr 1
  by_cases hother : other = stream
  · subst hother
    rw [if_pos rfl, List.filter_eq_self.2 (by simp), List.map_map]
    exact List.map_id' added
  · rw [if_neg hother, List.filter_eq_nil_iff.2 (by simp [Ne.symm hother])]
    rfl

/-- A work reads its chunk. -/
theorem Reading.work {stream : Stream} {chunk : List Char} {rest : List (Stream × List Char)}
    (hreading : Reading texts arrived read state) (hpending : state.pending = (stream, chunk) :: rest) :
    Reading texts arrived (read.set stream (read stream ++ chunk))
      (lineWork { state with pending := rest } stream chunk) := by
  have hsplit : split '\n' (read stream ++ chunk) = _ := split_append (read stream) chunk
  rw [← hreading.buffers stream] at hsplit
  have hnumber := hreading.finished stream
  have htext : ∀ other, read.set stream (read stream ++ chunk) other ++ pendingText rest other =
      read other ++ pendingText state.pending other := by
    intro other
    rw [hpending, PerStream.set, pendingText, pendingText, List.flatMap_cons]
    by_cases hother : other = stream
    · subst hother
      simp
    · simp [hother, Ne.symm hother]
  have hread : read stream ++ chunk <+: texts stream := by
    have hwithin := hreading.within stream
    rw [← htext, PerStream.set, if_pos rfl] at hwithin
    exact (List.prefix_append _ _).trans hwithin
  have hsame : ∀ other, other ≠ stream →
      read.set stream (read stream ++ chunk) other = read other := fun other hother =>
    if_neg hother
  have hnew : read.set stream (read stream ++ chunk) stream = read stream ++ chunk := if_pos rfl
  -- what the work delivers, and what it fails on
  let parts := split '\n' (state.lineBuffers stream ++ chunk)
  let delivered : List (List Char) × Option Nat :=
    if MAX_LINE_BYTES < byteCount parts.2 then ([], some (state.finished stream + parts.1.length))
    else deliver (state.finished stream) parts.1
  have hparts : split '\n' (read stream ++ chunk) =
      ((split '\n' (read stream)).1 ++ parts.1, parts.2) := hsplit
  have herror : (lineWork { state with pending := rest } stream chunk).lineError =
      (delivered.2.map fun line => (stream, line)).or state.lineError := rfl
  have hlines : (lineWork { state with pending := rest } stream chunk).lines =
      state.lines ++ delivered.1.map fun text => (stream, text) := rfl
  have hclean : delivered.2 = none → delivered.1 = parts.1.map stripReturn ∧
      ∀ raw ∈ parts.1, byteCount (stripReturn raw) ≤ MAX_LINE_BYTES := by
    intro hnone
    simp only [delivered] at hnone ⊢
    split at hnone
    · cases hnone
    · next hfits =>
      rw [if_neg hfits]
      exact deliver_none hnone
  have hquiet : (lineWork { state with pending := rest } stream chunk).lineError = none →
      delivered.2 = none ∧ state.lineError = none := by
    intro hnone
    rw [herror] at hnone
    simpa using hnone
  refine {
    buffers := ?_, finished := ?_, within := ?_, failed := ?_, current := ?_, delivered := ?_
    fits := ?_ }
  · intro other
    show PerStream.set _ _ _ _ = _
    by_cases hother : other = stream
    · subst hother
      rw [hnew, hparts, PerStream.set, if_pos rfl]
    · rw [hsame other hother, PerStream.set, if_neg hother]
      exact hreading.buffers other
  · intro other
    show PerStream.set _ _ _ _ = _
    by_cases hother : other = stream
    · subst hother
      rw [hnew, hparts, PerStream.set, if_pos rfl, List.length_append, ← hnumber]
    · rw [hsame other hother, PerStream.set, if_neg hother]
      exact hreading.finished other
  · intro other
    show read.set _ _ _ ++ pendingText rest other <+: _
    rw [htext]
    exact hreading.within other
  · intro line hline
    rw [herror] at hline
    cases hdelivered : delivered.2 with
    | none =>
        rw [hdelivered] at hline
        exact hreading.failed line hline
    | some number =>
        rw [hdelivered] at hline
        cases hline
        simp only [delivered] at hdelivered
        split at hdelivered
        · next hlong =>
          cases hdelivered
          have hunfinished := longLine_of_unfinished hread (by rw [hparts]; exact hlong)
          rw [hparts, List.length_append, ← hnumber] at hunfinished
          exact hunfinished
        · obtain ⟨k, raw, hraw, rfl, hlong⟩ := deliver_some hdelivered
          refine longLine_of_finished hread (?_ : _ = some raw)
            (Nat.lt_of_lt_of_le hlong (byteCount_stripReturn raw))
          rw [hparts, hnumber, List.getElem?_append_right (Nat.le_add_right _ _),
            Nat.add_sub_cancel_left]
          exact hraw
  · intro hnone other
    show read.set _ _ _ ++ pendingText rest other = _
    rw [htext]
    exact hreading.current (hquiet hnone).2 other
  · intro hnone other
    obtain ⟨hdelivered, hbefore⟩ := hquiet hnone
    rw [linesOf_work _ _ _ _ hlines]
    have hstate := hreading.delivered hbefore other
    rw [show ({ state with pending := rest } : ShellState).linesOf other = state.linesOf other
      from rfl, hstate]
    by_cases hother : other = stream
    · subst hother
      rw [hnew, hparts, if_pos rfl, List.map_append, (hclean hdelivered).1]
    · rw [hsame other hother, if_neg hother, List.append_nil]
  · intro hnone other raw hraw
    obtain ⟨hdelivered, hbefore⟩ := hquiet hnone
    by_cases hother : other = stream
    · subst hother
      rw [hnew, hparts] at hraw
      rcases List.mem_append.1 hraw with hold | hrecent
      · exact hreading.fits hbefore other raw hold
      · exact (hclean hdelivered).2 raw hrecent
    · rw [hsame other hother] at hraw
      exact hreading.fits hbefore other raw hraw

theorem Reading.settle (hreading : Reading texts arrived read state) :
    ∃ read', Reading texts arrived read' state.settle := by
  unfold ShellState.settle
  split
  · exact ⟨read, hreading⟩
  · next stream chunk rest hpending => exact ⟨_, hreading.work hpending⟩

/-- Reading goes on through any events that bring a part of the output. -/
theorem Reading.run (events : List ShellEvent) (hreading : Reading texts arrived read state)
    (hwithin : ∀ stream, arrived stream ++ textOf events stream <+: texts stream) :
    ∃ read', Reading texts (fun stream => arrived stream ++ textOf events stream) read'
      (events.foldl (ShellState.step true maxOutputChars) state) := by
  induction events generalizing arrived read state with
  | nil =>
      refine ⟨read, ?_⟩
      simpa [textOf] using hreading
  | cons event events ih =>
      have hsplit : ∀ stream, textOf (event :: events) stream =
          textOf [event] stream ++ textOf events stream := textOf_append [event] events
      simp only [hsplit, ← List.append_assoc] at hwithin ⊢
      cases event with
      | settle =>
          obtain ⟨read', hread'⟩ := hreading.settle
          have hnone : ∀ stream, textOf [.settle] stream = [] := fun stream => by simp [textOf]
          simp only [hnone, List.append_nil] at hwithin ⊢
          exact ih hread' hwithin
      | data other chunk =>
          have hchunk : ∀ stream, arrived stream ++ textOf [.data other chunk] stream =
              arrived.set other (arrived other ++ chunk) stream := by
            intro stream
            rw [PerStream.set]
            split
            · next heq => subst heq; simp [textOf]
            · next hne => simp [textOf, Ne.symm hne]
          simp only [hchunk] at hwithin ⊢
          refine ih (hreading.data maxOutputChars other chunk ?_) hwithin
          have hother := (List.prefix_append _ _).trans (hwithin other)
          rwa [PerStream.set, if_pos rfl] at hother

/-! ## The end of the command -/

theorem settle_pending (state : ShellState) : state.settle.pending = state.pending.tail := by
  unfold ShellState.settle
  split
  · next hpending => rw [hpending]; rfl
  · next hpending => rw [hpending]; rfl

theorem settled_pending (listener : Bool) (n : Nat) (state : ShellState) :
    ((List.replicate n ShellEvent.settle).foldl (ShellState.step listener maxOutputChars)
      state).pending = state.pending.drop n := by
  induction n generalizing state with
  | zero => rfl
  | succ n ih =>
      rw [List.replicate_succ, List.foldl_cons, ih, ShellState.step, settle_pending,
        List.drop_tail]

theorem processChunk_pending_le (listener : Bool) (state : ShellState) (stream : Stream)
    (chunk : List Char) :
    (processChunk listener maxOutputChars state stream chunk).pending.length ≤
      state.pending.length + 1 := by
  rw [processChunk]
  simp only []
  split
  · simp
  · omega

/-- Behind the end of the command no work is left. -/
theorem closing_pending (listener : Bool) (state : ShellState) :
    ((closing state).foldl (ShellState.step listener maxOutputChars) state).pending = [] := by
  rw [closing, List.foldl_append, settled_pending]
  refine List.drop_eq_nil_of_le ?_
  have hfirst := processChunk_pending_le maxOutputChars listener state .stdout []
  have hsecond := processChunk_pending_le maxOutputChars listener
    (processChunk listener maxOutputChars state .stdout []) .stderr []
  show (processChunk listener maxOutputChars
    (processChunk listener maxOutputChars state .stdout []) .stderr []).pending.length ≤ _
  omega

/-- The lines of a text, the last one without an end included. -/
def linesOfText (text : List Char) : List (List Char) :=
  (split '\n' text).1.map stripReturn ++
    if (split '\n' text).2 = [] then [] else [stripReturn (split '\n' text).2]

/-- No line of a text is too long, as far as it has to be looked at. -/
def TextFits (text : List Char) : Prop :=
  (∀ raw ∈ (split '\n' text).1, byteCount (stripReturn raw) ≤ MAX_LINE_BYTES) ∧
    byteCount (split '\n' text).2 ≤ MAX_LINE_BYTES

theorem flushStream_failed {line : Stream × Nat} (stream : Stream)
    (h : state.lineError = some line) : flushStream state stream = state := by
  rw [flushStream, if_neg (by rw [h]; exact Option.some_ne_none _)]

/-- What is left of a stream is its last line, or is too long. -/
theorem flushStream_cases (stream : Stream) (h : state.lineError = none) :
    (MAX_LINE_BYTES < byteCount (state.lineBuffers stream) ∧
      (flushStream state stream).lineError = some (stream, state.finished stream)) ∨
    (byteCount (state.lineBuffers stream) ≤ MAX_LINE_BYTES ∧
      (flushStream state stream).lineError = none ∧
      (flushStream state stream).lineBuffers = state.lineBuffers ∧
      (flushStream state stream).finished = state.finished ∧
      ∀ other, (flushStream state stream).linesOf other = state.linesOf other ++
        if other = stream ∧ state.lineBuffers stream ≠ [] then
          [stripReturn (state.lineBuffers stream)]
        else []) := by
  rw [flushStream, if_pos h]
  by_cases hlong : MAX_LINE_BYTES < byteCount (state.lineBuffers stream)
  · rw [if_pos hlong]
    exact .inl ⟨hlong, rfl⟩
  · refine .inr ⟨Nat.not_lt.1 hlong, ?_⟩
    rw [if_neg hlong]
    by_cases hempty : state.lineBuffers stream = []
    · rw [if_pos hempty]
      exact ⟨h, rfl, rfl, fun other => by simp [hempty]⟩
    · rw [if_neg hempty]
      refine ⟨h, rfl, rfl, fun other => ?_⟩
      rw [ShellState.linesOf, ShellState.linesOf, List.filter_append, List.map_append]
      by_cases hother : stream = other
      · subst hother
        simp [hempty]
      · simp [hother, Ne.symm hother]

/-- A run delivers the lines of the output, or fails on one that is too long. -/
theorem run_lines {events : List ShellEvent} (hcuts : Cuts texts events) :
    ((runShellAction true maxOutputChars events).lineError = none ∧ ∀ stream,
      (runShellAction true maxOutputChars events).linesOf stream = linesOfText (texts stream) ∧
      TextFits (texts stream)) ∨
    ∃ line, (runShellAction true maxOutputChars events).lineError = some line ∧
      LongLine texts line := by
  obtain ⟨before, hbefore⟩ := (reading_initial texts).run maxOutputChars events
    fun stream => ⟨[], by rw [List.append_nil, List.nil_append, hcuts stream]⟩
  let atEnd := events.foldl (ShellState.step true maxOutputChars) .initial
  obtain ⟨read', hread⟩ := hbefore.run maxOutputChars (closing atEnd)
    fun stream => ⟨[], by
      rw [textOf_closing, List.nil_append, List.append_nil, List.append_nil, hcuts stream]⟩
  have hpending := closing_pending maxOutputChars true atEnd
  let settled := (closing atEnd).foldl (ShellState.step true maxOutputChars) atEnd
  have hresult : runShellAction true maxOutputChars events =
      flushStream (flushStream settled .stdout) .stderr := rfl
  rw [hresult]
  cases herror : settled.lineError with
  | some line =>
      rw [flushStream_failed .stdout herror, flushStream_failed .stderr herror]
      exact .inr ⟨line, herror, hread.failed line herror⟩
  | none =>
      have htext : ∀ stream, read' stream = texts stream := by
        intro stream
        have hcurrent := hread.current herror stream
        rw [hpending, textOf_closing, List.nil_append, List.append_nil, hcuts stream] at hcurrent
        simpa [pendingText] using hcurrent
      have hbuffers : ∀ stream, settled.lineBuffers stream = (split '\n' (texts stream)).2 :=
        fun stream => by rw [← htext]; exact hread.buffers stream
      have hfinished : ∀ stream, settled.finished stream = (split '\n' (texts stream)).1.length :=
        fun stream => by rw [← htext]; exact hread.finished stream
      have hlong : ∀ stream, MAX_LINE_BYTES < byteCount (settled.lineBuffers stream) →
          LongLine texts (stream, settled.finished stream) := by
        intro stream hlong
        rw [hfinished]
        rw [hbuffers] at hlong
        exact longLine_of_unfinished (List.prefix_refl _) hlong
      rcases flushStream_cases .stdout herror with ⟨hstdout, hfail⟩ |
        ⟨hstdout, hnone, hbuffers', hfinished', hlines⟩
      · rw [flushStream_failed .stderr hfail]
        exact .inr ⟨_, hfail, hlong .stdout hstdout⟩
      · rcases flushStream_cases .stderr hnone with ⟨hstderr, hfail⟩ |
          ⟨hstderr, hnone', -, -, hlines'⟩
        · rw [hbuffers'] at hstderr
          rw [hfinished'] at hfail
          exact .inr ⟨_, hfail, hlong .stderr hstderr⟩
        · refine .inl ⟨hnone', fun stream => ⟨?_, ?_, ?_⟩⟩
          · rw [hlines', hlines, hread.delivered herror stream, htext, linesOfText, hbuffers',
              hbuffers, hbuffers]
            cases stream <;> simp
          · intro raw hraw
            rw [← htext] at hraw
            exact hread.fits herror stream raw hraw
          · rw [hbuffers'] at hstderr
            rw [← hbuffers]
            cases stream with
            | stdout => exact hstdout
            | stderr => exact hstderr

/-- Where the lines fit, any two ways of cutting agree on them. -/
theorem sameLines_of_fit {events events' : List ShellEvent} (hcuts : Cuts texts events)
    (hcuts' : Cuts texts events') (hfit : LinesFit texts) :
    SameLines (runShellAction true maxOutputChars events)
      (runShellAction true maxOutputChars events') := by
  have hnever : (∀ stream, TextFits (texts stream)) → ∀ line, ¬LongLine texts line := by
    intro hfits line hline
    obtain ⟨raw, hraw, hlong⟩ := hline
    obtain ⟨hlines, hlast⟩ := hfits line.1
    rw [pieces, List.getElem?_append] at hraw
    split at hraw
    · have hmem := List.mem_of_getElem? hraw
      have hplain := hfit.plain line.1 line.2 raw hraw hlong
      have hshort := hlines raw hmem
      omega
    · have hmem := List.mem_singleton.1 (List.mem_of_getElem? hraw)
      rw [hmem] at hlong
      omega
  rcases run_lines maxOutputChars hcuts with ⟨hnone, hlines⟩ | ⟨line, hline, hlong⟩
  · rcases run_lines maxOutputChars hcuts' with
      ⟨hnone', hlines'⟩ | ⟨line, hline, hlong⟩
    · exact .inl ⟨hnone, hnone', fun stream => (hlines stream).1.trans (hlines' stream).1.symm⟩
    · exact absurd hlong (hnever (fun stream => (hlines stream).2) line)
  · rcases run_lines maxOutputChars hcuts' with
      ⟨hnone', hlines'⟩ | ⟨line', hline', hlong'⟩
    · exact absurd hlong (hnever (fun stream => (hlines' stream).2) line)
    · rw [hfit.single line line' hlong hlong'] at hline
      exact .inr ⟨line', hline, hline'⟩

/-! ## Cuts that make a difference -/

/-- A delivery that has failed stays so. -/
theorem failed_stuck {line : Stream × Nat} (events : List ShellEvent)
    (herror : state.lineError = some line) (hpending : state.pending = []) :
    (events.foldl (ShellState.step true maxOutputChars) state).lineError = some line ∧
      (events.foldl (ShellState.step true maxOutputChars) state).pending = [] := by
  induction events generalizing state with
  | nil => exact ⟨herror, hpending⟩
  | cons event events ih =>
      refine ih ?_ ?_
      · cases event with
        | data stream chunk => exact herror
        | settle =>
            rw [ShellState.step, ShellState.settle, hpending]
            exact herror
      · cases event with
        | data stream chunk =>
            rw [ShellState.step, processChunk]
            simp [herror, hpending]
        | settle =>
            rw [ShellState.step, settle_pending, hpending]
            rfl

theorem lineWork_long (state : ShellState) (stream : Stream) (chunk : List Char)
    (h : MAX_LINE_BYTES < byteCount (split '\n' (state.lineBuffers stream ++ chunk)).2) :
    (lineWork state stream chunk).lineError = some (stream,
      state.finished stream + (split '\n' (state.lineBuffers stream ++ chunk)).1.length) := by
  simp only [lineWork, if_pos h]
  rfl

theorem lineWork_quiet {state : ShellState} {stream : Stream} {chunk : List Char}
    (hnone : state.lineError = none) (h : TextFits (state.lineBuffers stream ++ chunk)) :
    (lineWork state stream chunk).lineError = none := by
  simp only [lineWork, if_neg (Nat.not_lt.2 h.2), deliver_fits h.1, hnone]
  rfl

/-- Every line that is too long is the one that fails if the first chunk ends with it. -/
theorem fails_on {line : Stream × Nat} (hlong : LongLine texts line) :
    ∃ events, Cuts texts events ∧
      (runShellAction true maxOutputChars events).lineError = some line := by
  obtain ⟨stream, number⟩ := line
  obtain ⟨raw, hraw, hbytes⟩ := hlong
  obtain ⟨part, rest, htext, hlength, hlast⟩ := part_of_piece hraw
  let other : Stream := if stream = .stdout then .stderr else .stdout
  have hother : other ≠ stream := by cases stream <;> decide
  let events : List ShellEvent :=
    [.data stream part, .settle, .data stream rest, .data other (texts other)]
  have hcuts : Cuts texts events := by
    intro target
    by_cases htarget : stream = target
    · subst htarget
      simp [events, textOf, hother, htext]
    · have hsecond : other = target := by
        revert htarget
        cases stream <;> cases target <;> simp [other]
      simp [events, textOf, htarget, hsecond]
  refine ⟨events, hcuts, ?_⟩
  let first := (ShellState.initial.step true maxOutputChars (.data stream part)).step true
    maxOutputChars .settle
  have hfirst : first.lineError = some (stream, number) ∧ first.pending = [] := by
    refine ⟨?_, rfl⟩
    have hwork := lineWork_long
      { ShellState.initial.step true maxOutputChars (.data stream part) with pending := [] }
      stream part (by rw [← hlast] at hbytes; exact hbytes)
    rw [show some (stream, number) = some (stream, 0 + (split '\n' part).1.length) by
      rw [hlength, Nat.zero_add]]
    exact hwork
  obtain ⟨herror, hpending⟩ := failed_stuck maxOutputChars
    [.data stream rest, .data other (texts other)] hfirst.1 hfirst.2
  let atEnd := events.foldl (ShellState.step true maxOutputChars) .initial
  have hfailed : atEnd.lineError = some (stream, number) := herror
  have hidle : atEnd.pending = [] := hpending
  have hclosed := failed_stuck maxOutputChars (closing atEnd) hfailed hidle
  have hresult : runShellAction true maxOutputChars events =
      flushStream (flushStream ((closing atEnd).foldl (ShellState.step true maxOutputChars) atEnd)
        .stdout) .stderr := rfl
  rw [hresult, flushStream_failed .stdout hclosed.1, flushStream_failed .stderr hclosed.1]
  exact hclosed.1

/-- Nothing has failed, nothing unfinished is too long, and the works that wait bring nothing. -/
structure Calm (state : ShellState) : Prop where
  quiet : state.lineError = none
  short : ∀ stream, byteCount (state.lineBuffers stream) ≤ MAX_LINE_BYTES
  open' : ∀ stream, '\n' ∉ state.lineBuffers stream
  idle : ∀ work ∈ state.pending, work.2 = []

/-- A chunk that brings nothing changes nothing. -/
theorem Calm.step {event : ShellEvent} (h : Calm state)
    (hevent : ∀ stream chunk, event = .data stream chunk → chunk = []) :
    Calm (state.step true maxOutputChars event) := by
  cases event with
  | data stream chunk =>
      refine { h with idle := ?_ }
      rw [ShellState.step, processChunk]
      intro work hwork
      simp only [h.quiet, and_self, if_true, List.mem_append, List.mem_singleton] at hwork
      rcases hwork with hwork | rfl
      · exact h.idle work hwork
      · exact hevent stream chunk rfl
  | settle =>
      rw [ShellState.step, ShellState.settle]
      split
      · exact h
      · next stream chunk rest hpending =>
        have hchunk : chunk = [] := h.idle (stream, chunk) (by rw [hpending]; exact List.mem_cons_self)
        subst hchunk
        have hsplit : split '\n' (state.lineBuffers stream ++ []) =
            ([], state.lineBuffers stream) := by
          rw [List.append_nil]
          exact split_of_notMem (h.open' stream)
        have hbuffers : (lineWork { state with pending := rest } stream []).lineBuffers =
            state.lineBuffers := by
          funext other
          show PerStream.set state.lineBuffers stream
            (split '\n' (state.lineBuffers stream ++ [])).2 other = _
          rw [hsplit, PerStream.set]
          split
          · next hother => rw [hother]
          · rfl
        refine {
          quiet := lineWork_quiet h.quiet ?_, short := ?_, open' := ?_, idle := ?_ }
        · refine ⟨?_, ?_⟩
          · show ∀ raw ∈ (split '\n' (state.lineBuffers stream ++ [])).1, _
            rw [hsplit]
            exact fun raw hraw => absurd hraw List.not_mem_nil
          · show byteCount (split '\n' (state.lineBuffers stream ++ [])).2 ≤ _
            rw [hsplit]
            exact h.short stream
        · rw [hbuffers]
          exact h.short
        · rw [hbuffers]
          exact h.open'
        · exact fun work hwork => h.idle work (by rw [hpending]; exact List.mem_cons_of_mem _ hwork)

/-- A text whose lines fit may arrive at once. -/
theorem Calm.arrive (stream : Stream) {text : List Char} (h : Calm state)
    (hpending : state.pending = []) (hbuffer : state.lineBuffers stream = [])
    (hfits : TextFits text) :
    Calm ((state.step true maxOutputChars (.data stream text)).step true maxOutputChars .settle) ∧
      ((state.step true maxOutputChars (.data stream text)).step true maxOutputChars
        .settle).pending = [] ∧
      ∀ other, other ≠ stream →
        ((state.step true maxOutputChars (.data stream text)).step true maxOutputChars
          .settle).lineBuffers other = state.lineBuffers other := by
  let arrived := { state.step true maxOutputChars (.data stream text) with pending := [] }
  have hsettle : (state.step true maxOutputChars (.data stream text)).step true maxOutputChars
      .settle = lineWork arrived stream text := by
    have hwaiting : (state.step true maxOutputChars (.data stream text)).pending =
        [(stream, text)] := by
      rw [ShellState.step, processChunk]
      simp [h.quiet, hpending]
    show ShellState.settle (state.step true maxOutputChars (.data stream text)) = _
    unfold ShellState.settle
    simp only [hwaiting, arrived]
  have hbuffers : ∀ other, (lineWork arrived stream text).lineBuffers other =
      if other = stream then (split '\n' text).2 else state.lineBuffers other := by
    intro other
    show PerStream.set state.lineBuffers stream
      (split '\n' (state.lineBuffers stream ++ text)).2 other = _
    rw [hbuffer, List.nil_append, PerStream.set]
  rw [hsettle]
  refine ⟨{ quiet := ?_, short := ?_, open' := ?_, idle := ?_ }, rfl, ?_⟩
  · refine lineWork_quiet h.quiet ?_
    show TextFits (state.lineBuffers stream ++ text)
    rwa [hbuffer, List.nil_append]
  · intro other
    rw [hbuffers]
    split
    · exact hfits.2
    · exact h.short other
  · intro other
    rw [hbuffers]
    split
    · exact notMem_split text
    · exact h.open' other
  · exact fun work hwork => absurd hwork List.not_mem_nil
  · intro other hother
    rw [hbuffers, if_neg hother]

/-- Where no line is too long as it is delivered, some way of cutting delivers them all. -/
theorem quiet_cut (hfits : ∀ stream, TextFits (texts stream)) :
    ∃ events, Cuts texts events ∧
      (runShellAction true maxOutputChars events).lineError = none := by
  let events : List ShellEvent :=
    [.data .stdout (texts .stdout), .settle, .data .stderr (texts .stderr), .settle]
  have hcuts : Cuts texts events := by
    intro stream
    cases stream <;> simp [events, textOf]
  have hinitial : Calm .initial :=
    { quiet := rfl, short := fun _ => Nat.zero_le _, open' := fun _ => List.not_mem_nil
      idle := fun _ hwork => absurd hwork List.not_mem_nil }
  obtain ⟨hstdout, hpending, hbuffers⟩ := Calm.arrive maxOutputChars .stdout hinitial rfl rfl
    (hfits .stdout)
  obtain ⟨hstderr, -, -⟩ := Calm.arrive maxOutputChars .stderr hstdout hpending
    (hbuffers .stderr (by decide)) (hfits .stderr)
  let atEnd := events.foldl (ShellState.step true maxOutputChars) .initial
  have hclosing : ∀ event ∈ closing atEnd, ∀ stream chunk,
      event = .data stream chunk → chunk = [] := by
    intro event hevent stream chunk heq
    subst heq
    have hdata : (stream = .stdout ∧ chunk = []) ∨ (stream = .stderr ∧ chunk = []) := by
      simpa [closing] using hevent
    exact hdata.elim And.right And.right
  have hcalm : ∀ rest : List ShellEvent,
      (∀ event ∈ rest, ∀ stream chunk, event = .data stream chunk → chunk = []) →
      ∀ state, Calm state → Calm (rest.foldl (ShellState.step true maxOutputChars) state) := by
    intro rest hrest
    induction rest with
    | nil => exact fun state h => h
    | cons event rest ih =>
        intro state h
        obtain ⟨hevent, hrest⟩ := List.forall_mem_cons.1 hrest
        exact ih hrest _ (h.step maxOutputChars hevent)
  have hsettled := hcalm (closing atEnd) hclosing atEnd hstderr
  refine ⟨events, hcuts, ?_⟩
  rw [runShellAction, ShellState.close, if_pos rfl]
  rcases flushStream_cases .stdout hsettled.quiet with ⟨hlong, -⟩ | ⟨-, hnone, hbuffers', -, -⟩
  · exact absurd hlong (Nat.not_lt.2 (hsettled.short .stdout))
  · rcases flushStream_cases .stderr hnone with ⟨hlong, -⟩ | ⟨-, hnone', -⟩
    · rw [hbuffers'] at hlong
      exact absurd hlong (Nat.not_lt.2 (hsettled.short .stderr))
    · exact hnone'

/-- Ways of cutting that all agree leave no choice of the line that fails. -/
theorem fit_of_sameLines
    (h : ∀ events events', Cuts texts events → Cuts texts events' →
      SameLines (runShellAction true maxOutputChars events)
        (runShellAction true maxOutputChars events')) : LinesFit texts := by
  have hsingle : ∀ line other, LongLine texts line → LongLine texts other → line = other := by
    intro line other hline hother
    obtain ⟨events, hcuts, hfails⟩ := fails_on maxOutputChars hline
    obtain ⟨events', hcuts', hfails'⟩ := fails_on maxOutputChars hother
    rcases h events events' hcuts hcuts' with ⟨hnone, -⟩ | ⟨failed, hfailed, hfailed'⟩
    · rw [hfails] at hnone
      cases hnone
    · rw [hfails] at hfailed
      rw [hfails'] at hfailed'
      exact (Option.some.inj hfailed).trans (Option.some.inj hfailed').symm
  refine ⟨hsingle, fun stream number raw hraw hlong => ?_⟩
  by_contra hshort
  -- the line is too long with its carriage return only, so it may as well be delivered
  have hline : LongLine texts (stream, number) :=
    longLine_of_finished (List.prefix_refl _) hraw hlong
  have hfits : ∀ target, TextFits (texts target) := by
    intro target
    refine ⟨fun other hother => ?_, Nat.not_lt.1 fun hlast => ?_⟩
    · obtain ⟨k, hk⟩ := List.mem_iff_getElem?.1 hother
      refine Nat.not_lt.1 fun hbytes => ?_
      have hsame := hsingle _ _ (longLine_of_finished (List.prefix_refl (texts target)) hk
        (Nat.lt_of_lt_of_le hbytes (byteCount_stripReturn other))) hline
      cases hsame
      rw [hraw] at hk
      cases hk
      exact hshort hbytes
    · have hsame := hsingle _ _ (longLine_of_unfinished (List.prefix_refl (texts target))
        hlast) hline
      cases hsame
      rw [List.getElem?_eq_none (Nat.le_refl _)] at hraw
      cases hraw
  obtain ⟨events, hcuts, hfails⟩ := fails_on maxOutputChars hline
  obtain ⟨events', hcuts', hquiet⟩ := quiet_cut maxOutputChars hfits
  rcases h events events' hcuts hcuts' with ⟨hnone, -⟩ | ⟨failed, -, hfailed⟩
  · rw [hfails] at hnone
    cases hnone
  · rw [hquiet] at hfailed
    cases hfailed

end

/-- Without a listener there are no lines to fail on. -/
theorem sameLines_of_silent (maxOutputChars : Nat) (events events' : List ShellEvent) :
    SameLines (runShellAction false maxOutputChars events)
      (runShellAction false maxOutputChars events') := by
  have hsilent : ∀ (rest : List ShellEvent) (state : ShellState), state.pending = [] →
      state.lines = [] → state.lineError = none →
      let after := rest.foldl (ShellState.step false maxOutputChars) state
      after.pending = [] ∧ after.lines = [] ∧ after.lineError = none := by
    intro rest
    induction rest with
    | nil => exact fun state hpending hlines hnone => ⟨hpending, hlines, hnone⟩
    | cons event rest ih =>
        intro state hpending hlines hnone
        cases event with
        | data stream chunk => exact ih _ hpending hlines hnone
        | settle =>
            have hsame : state.settle = state := by
              rw [ShellState.settle, hpending]
            rw [List.foldl_cons, ShellState.step, hsame]
            exact ih state hpending hlines hnone
  have hrun : ∀ events : List ShellEvent,
      (runShellAction false maxOutputChars events).lines = [] ∧
        (runShellAction false maxOutputChars events).lineError = none := by
    intro events
    obtain ⟨hpending, hlines, hnone⟩ := hsilent events .initial rfl rfl rfl
    obtain ⟨-, hlines', hnone'⟩ := hsilent (closing _) _ hpending hlines hnone
    exact ⟨hlines', hnone'⟩
  refine .inl ⟨(hrun events).2, (hrun events').2, fun stream => ?_⟩
  rw [ShellState.linesOf, ShellState.linesOf, (hrun events).1, (hrun events').1]

/-- What is kept, what is reported and what is delivered of an output depends on how it is cut
unless the marker does not end within the limit and, for a listener, the lines fit. -/
theorem cutting_irrelevant (listener : Bool) (maxOutputChars : Nat)
    (texts : PerStream (List Char)) :
    (∀ events events', Cuts texts events → Cuts texts events' →
      Captured maxOutputChars texts (runShellAction listener maxOutputChars events) ∧
        SameLines (runShellAction listener maxOutputChars events)
          (runShellAction listener maxOutputChars events')) ↔
      (∀ stream, MarkerFree maxOutputChars (texts stream)) ∧
        (listener = true → LinesFit texts) := by
  constructor
  · intro h
    refine ⟨fun stream part hpart hfits => ?_, fun hlistener => ?_⟩
    · by_contra hmarker
      obtain ⟨events, hcuts, hnot⟩ := not_captured_of_marker listener hpart hfits
        (Bool.not_eq_false _ ▸ hmarker)
      exact hnot (h events events hcuts hcuts).1
    · subst hlistener
      exact fit_of_sameLines maxOutputChars fun events events' hcuts hcuts' =>
        (h events events' hcuts hcuts').2
  · intro hconditions events events' hcuts hcuts'
    refine ⟨captured_of_markerFree hcuts hconditions.1, ?_⟩
    cases listener with
    | false => exact sameLines_of_silent maxOutputChars events events'
    | true => exact sameLines_of_fit maxOutputChars hcuts hcuts' (hconditions.2 rfl)

/-- The marker in the output of a command. -/
def markedOutput : PerStream (List Char)
  | .stdout => "\n…[output truncated]!".toList
  | .stderr => []

/-- Cut behind the marker, the output loses its last character. -/
theorem marked_output_cut :
    ∃ (events events' : List ShellEvent),
      Cuts markedOutput events ∧ Cuts markedOutput events' ∧
      (runShellAction false 100 events).captured .stdout ≠
        (runShellAction false 100 events').captured .stdout := by
  refine ⟨[.data .stdout "\n…[output truncated]!".toList],
    [.data .stdout "\n…[output truncated]".toList, .data .stdout "!".toList], ?_, ?_, by decide⟩
  · intro stream
    cases stream <;> decide
  · intro stream
    cases stream <;> decide

end PiWorkflows.Shell
