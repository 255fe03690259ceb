import PiWorkflows.Js.Text
import PiWorkflows.Js.Utf16
import PiWorkflows.Lib.Lines

/-!
# The output of a command (`workflows/shell.ts`)

`runShellAction` reads two streams chunk by chunk. Each chunk is added to what is
kept of its stream, which is cut at a limit and marked when it is, and, if there
is a listener, it is also handed on line by line. The lines of a chunk are the
work of a promise that runs later (`lineWork`), so a chunk of the other stream
may arrive before; a line that is too long ends the delivery but not the works
that are waiting already.

A chunk is what the decoder makes of the bytes it is given, a list of characters.
What is kept is counted in code units. The number of a line is not in the error
of the source, which names the stream alone; it is kept here to say which line
it was (`lineError`). Its counter (`finished`) has no other use.
-/

namespace PiWorkflows.Shell

/-- The streams of a command. -/
inductive Stream where
  | stdout
  | stderr
  deriving DecidableEq, Repr

def Stream.text : Stream → String
  | .stdout => "stdout"
  | .stderr => "stderr"

def TRUNCATION_MARKER : CodeUnits :=
  encodeUtf16 "\n…[output truncated]".toList

/-- The bytes that an update line may have. -/
def MAX_LINE_BYTES : Nat := 64 * 1024

/-- `Buffer.byteLength(text, "utf8")`. -/
def byteCount (text : List Char) : Nat :=
  (text.map Char.utf8Size).sum

/-- `text.endsWith(TRUNCATION_MARKER)`, which `shellOutputTruncation` reports. -/
def isTruncated (text : CodeUnits) : Bool :=
  TRUNCATION_MARKER.isSuffixOf text

/-- `appendCapped`. -/
def appendCapped (maxOutputChars : Nat) (current chunk : CodeUnits) : CodeUnits :=
  if isTruncated current then current
  else if current.length + chunk.length ≤ maxOutputChars then current ++ chunk
  else current ++ chunk.take (maxOutputChars - current.length) ++ TRUNCATION_MARKER

/-- `raw.endsWith("\r") ? raw.slice(0, -1) : raw`. -/
def stripReturn (raw : List Char) : List Char :=
  if raw.getLast? = some '\r' then raw.dropLast else raw

/-- One entry for each stream. -/
abbrev PerStream (α : Type) := Stream → α

def PerStream.set {α : Type} (f : PerStream α) (stream : Stream) (value : α) : PerStream α :=
  fun other => if other = stream then value else f other

/-- The variables of `runShellAction`. -/
structure ShellState where
  captured : PerStream CodeUnits
  lineBuffers : PerStream (List Char)
  finished : PerStream Nat
  /-- The works of `lineWork` that have not run. -/
  pending : List (Stream × List Char)
  /-- What the listener was given. -/
  lines : List (Stream × List Char)
  lineError : Option (Stream × Nat)

def ShellState.initial : ShellState where
  captured := fun _ => []
  lineBuffers := fun _ => []
  finished := fun _ => 0
  pending := []
  lines := []
  lineError := none

/-- The message of a line that is too long. -/
def lineErrorMessage (stream : Stream) : String :=
  s!"shell {stream.text} update line exceeded 65536 bytes"

/-- `processChunk`, up to the promise. -/
def processChunk (listener : Bool) (maxOutputChars : Nat) (state : ShellState) (stream : Stream)
    (chunk : List Char) : ShellState :=
  { state with
    captured := state.captured.set stream
      (appendCapped maxOutputChars (state.captured stream) (encodeUtf16 chunk))
    pending :=
      if listener = true ∧ state.lineError = none then state.pending ++ [(stream, chunk)]
      else state.pending }

/-- The loop over the lines of a chunk: what is delivered, and the line it fails on. -/
def deliver : Nat → List (List Char) → List (List Char) × Option Nat
  | _, [] => ([], none)
  | number, raw :: rest =>
      if MAX_LINE_BYTES < byteCount (stripReturn raw) then ([], some number)
      else (stripReturn raw :: (deliver (number + 1) rest).1, (deliver (number + 1) rest).2)

/-- The work of a chunk. What stands behind its last line is looked at before its lines are. -/
def lineWork (state : ShellState) (stream : Stream) (chunk : List Char) : ShellState :=
  let parts := Lines.split '\n' (state.lineBuffers stream ++ chunk)
  let number := state.finished stream
  let delivered :=
    if MAX_LINE_BYTES < byteCount parts.2 then ([], some (number + parts.1.length))
    else deliver number parts.1
  { state with
    lineBuffers := state.lineBuffers.set stream parts.2
    finished := state.finished.set stream (number + parts.1.length)
    lines := state.lines ++ delivered.1.map fun text => (stream, text)
    lineError := (delivered.2.map fun line => (stream, line)).or state.lineError }

/-- What happens while a command runs: a chunk arrives, or the next work runs. -/
inductive ShellEvent where
  | data (stream : Stream) (chunk : List Char)
  | settle

def ShellState.settle (state : ShellState) : ShellState :=
  match state.pending with
  | [] => state
  | (stream, chunk) :: rest => lineWork { state with pending := rest } stream chunk

section

variable (listener : Bool) (maxOutputChars : Nat)

def ShellState.step (state : ShellState) : ShellEvent → ShellState
  | .data stream chunk => processChunk listener maxOutputChars state stream chunk
  | .settle => state.settle

/-- `flushLines` on one stream. -/
def flushStream (state : ShellState) (stream : Stream) : ShellState :=
  if state.lineError = none then
    if MAX_LINE_BYTES < byteCount (state.lineBuffers stream) then
      { state with lineError := some (stream, state.finished stream) }
    else if state.lineBuffers stream = [] then state
    else { state with lines := state.lines ++ [(stream, stripReturn (state.lineBuffers stream))] }
  else state

/-- The events of the end of a command: what the decoders still hold, and all works. -/
def closing (state : ShellState) : List ShellEvent :=
  [.data .stdout [], .data .stderr []] ++ List.replicate (state.pending.length + 2) .settle

/-- The `close` event. -/
def ShellState.close (state : ShellState) : ShellState :=
  let settled := (closing state).foldl (ShellState.step listener maxOutputChars) state
  if listener then flushStream (flushStream settled .stdout) .stderr else settled

/-- What `runShellAction` has when the command is over. -/
def runShellAction (events : List ShellEvent) : ShellState :=
  (events.foldl (ShellState.step listener maxOutputChars) .initial).close listener maxOutputChars

end

/-- The lines of one stream, in the order in which they were delivered. -/
def ShellState.linesOf (state : ShellState) (stream : Stream) : List (List Char) :=
  (state.lines.filter fun line => line.1 = stream).map Prod.snd

end PiWorkflows.Shell
