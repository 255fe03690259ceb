import PiWorkflows.Js.Utf8
import PiWorkflows.Lib.Lines
import PiWorkflows.Server.Commands

/-!
# Messages between clients and the server (`client/protocol.ts`)

A message is an object of one of four shapes, written as canonical JSON on a line
of its own. The reader of a stream keeps the bytes of a line that is not complete.
What is read has to be canonical, so it can be compared with what is written for
the value that was parsed.

A message is valid by its type: an id, a text or a revision is kept with its own
bounds. A parsed message is the object that was read. A line that is given as a
text is parsed as the bytes of it.
-/

namespace PiWorkflows

open Fallible

def MAX_PROTOCOL_MESSAGE_BYTES : Nat := 1024 * 1024

def CLIENT_OPERATIONS : List String :=
  ["run.start", "run.pause", "run.resume", "run.cancel", "run.restart", "run.changeSettings",
    "run.status", "run.list", "checkpoint.answer", "decision.answer", "interaction.submit",
    "interaction.assistant", "interaction.update", "workflowMessage.reportBranch",
    "workflowTurn.report", "sessionView.clearTerminal", "followUp.queue", "followUp.remove",
    "session.record", "channel.status", "channel.reload", "channel.recover",
    "resourceManager.list", "resourceManager.get", "resourceManager.apply",
    "resourceManager.reconcile", "resourceManager.delete", "server.status", "server.stop",
    "view.runs.watch", "view.runs.page", "view.run.get", "view.run.watch", "view.run.unwatch",
    "view.page", "view.content", "view.session.watch", "view.session.window", "state.status",
    "state.verify", "state.backup", "state.prune"]

def CLIENT_OUTCOMES : List String :=
  ["accepted", "adopted", "rejected", "conflict", "notFound", "claimLost", "unavailable"]

def CLIENT_EVENTS : List String :=
  ["runs", "run_snapshot", "run_page", "session_snapshot", "unavailable"]

/-! ## Messages -/

/-- What `requireOpaqueId` admits. -/
def isOpaqueId (text : String) : Bool :=
  decide (text ≠ "") && decide (byteLength text ≤ 256)

/-- An id that is nothing but compared. -/
abbrev OpaqueId := { text : String // isOpaqueId text = true }

/-- What `requireText` admits. -/
abbrev NonemptyText := { text : String // text ≠ "" }

/-- What `requireOptionalRevision` admits. -/
abbrev Revision := { n : Nat // n ≤ MAX_SAFE_INTEGER }

abbrev ClientOperation := { operation : String // operation ∈ CLIENT_OPERATIONS }

abbrev ClientOutcomeName := { outcome : String // outcome ∈ CLIENT_OUTCOMES }

abbrev ClientEventName := { event : String // event ∈ CLIENT_EVENTS }

/-- `ClientMessage`. -/
inductive ClientMessage where
  | hello (connectionId : OpaqueId) (packageVersion : NonemptyText)
  | request (requestId clientId : OpaqueId) (operation : ClientOperation)
      (idempotencyKey : OpaqueId) (runId : Option OpaqueId) (expectedRevision : Option Revision)
      (payload : Json)
  | response (requestId : OpaqueId) (outcome : ClientOutcomeName) (revision : Option Revision)
      (receipt : Option Json) (error : Option NonemptyText)
  | event (subscriptionId : OpaqueId) (eventName : ClientEventName) (revision : Option Revision)
      (runId : Option OpaqueId) (payload : Json)

/-- A member that is left out if it is undefined. -/
def definedMember {α : Type} (key : String) (toJson : α → Json) (value : Option α) :
    List (String × Json) :=
  (value.map fun value => (key, toJson value)).toList

def OpaqueId.toJson (id : OpaqueId) : Json := .str id.val

def NonemptyText.toJson (text : NonemptyText) : Json := .str text.val

def Revision.toJson (revision : Revision) : Json := .num (.ofNat revision.val)

/-- A message as the object it is. -/
def ClientMessage.toJson : ClientMessage → Json
  | .hello connectionId packageVersion => .obj
      [("schema", .str CLIENT_PROTOCOL_SCHEMA), ("type", .str "hello"),
        ("connectionId", .str connectionId.val), ("packageVersion", .str packageVersion.val)]
  | .request requestId clientId operation idempotencyKey runId expectedRevision payload => .obj
      ([("schema", .str CLIENT_PROTOCOL_SCHEMA), ("type", .str "request"),
        ("requestId", .str requestId.val), ("clientId", .str clientId.val),
        ("operation", .str operation.val), ("idempotencyKey", .str idempotencyKey.val)] ++
        definedMember "runId" OpaqueId.toJson runId ++
        definedMember "expectedRevision" Revision.toJson expectedRevision ++
        [("payload", payload)])
  | .response requestId outcome revision receipt error => .obj
      ([("schema", .str CLIENT_PROTOCOL_SCHEMA), ("type", .str "response"),
        ("requestId", .str requestId.val), ("outcome", .str outcome.val)] ++
        definedMember "revision" Revision.toJson revision ++
        definedMember "receipt" id receipt ++
        definedMember "error" NonemptyText.toJson error)
  | .event subscriptionId eventName revision runId payload => .obj
      ([("schema", .str CLIENT_PROTOCOL_SCHEMA), ("type", .str "event"),
        ("subscriptionId", .str subscriptionId.val), ("event", .str eventName.val)] ++
        definedMember "revision" Revision.toJson revision ++
        definedMember "runId" OpaqueId.toJson runId ++ [("payload", payload)])

/-! ## Writing -/

structure NdjsonFrameDecoder where
  maxMessageBytes : Nat := MAX_PROTOCOL_MESSAGE_BYTES
  oversizedMessage : String := "Client protocol message exceeds 1 MiB"
  buffered : Bytes := []

namespace NdjsonFrameDecoder

/-- The loop of `push`: the frames that are complete, and what is left. -/
def takeFrames (maxMessageBytes : Nat) (oversizedMessage : String) (buffered : Bytes) :
    Except String (List Bytes × Bytes) :=
  match hcut : Lines.cut 0x0a buffered with
  | none => pure ([], buffered)
  | some (frame, rest) =>
      have : rest.length < buffered.length := Lines.length_of_cut hcut
      if frame.length = 0 then takeFrames maxMessageBytes oversizedMessage rest
      else do
        require (frame.length + 1 ≤ maxMessageBytes) oversizedMessage
        let (frames, left) ← takeFrames maxMessageBytes oversizedMessage rest
        pure (frame :: frames, left)
termination_by buffered.length

/-- `push`. -/
def push (decoder : NdjsonFrameDecoder) (chunk : Bytes) :
    Except String (List Bytes × NdjsonFrameDecoder) := do
  let buffered := decoder.buffered ++ chunk
  require (buffered.length ≤ decoder.maxMessageBytes ∨ 0x0a ∈ buffered) decoder.oversizedMessage
  let (frames, left) ← takeFrames decoder.maxMessageBytes decoder.oversizedMessage buffered
  pure (frames, { decoder with buffered := left })

end NdjsonFrameDecoder

end PiWorkflows
