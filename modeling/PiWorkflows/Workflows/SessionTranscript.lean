import PiWorkflows.Workflows.SessionReducer

/-!
# Transcripts

What the session reducer computes, without its maps and objects: a transcript is a
value, and each event makes the next transcript of the last one. Nothing but the
transcript is carried from event to event, so a fold can stop anywhere and go on
from there.
-/

namespace PiWorkflows.SessionReplay

/-- A message as a value. -/
abbrev Message := TemporalMessage TemporalContentBlock

def blockIn (blocks : List TemporalContentBlock) (contentIndex : Nat) :
    Option TemporalContentBlock :=
  blocks.find? fun block => block.contentIndex = contentIndex

/-- A block is opened where none has its index, between those around it. -/
def withBlock (blocks : List TemporalContentBlock) (contentIndex : Nat) (kind : BlockKind) :
    List TemporalContentBlock :=
  match blockIn blocks contentIndex with
  | some _ => blocks
  | none =>
      (blocks.filter fun block => block.contentIndex < contentIndex) ++
        { contentIndex, kind } :: blocks.filter fun block => contentIndex < block.contentIndex

def editBlock (blocks : List TemporalContentBlock) (contentIndex : Nat)
    (g : TemporalContentBlock → TemporalContentBlock) : List TemporalContentBlock :=
  blocks.map fun block => if block.contentIndex = contentIndex then g block else block

namespace Transcript

def empty : Transcript where
  throughSeq := 0
  messages := []
  tools := []
  settledEntryIds := []
  diagnostics := []

def diagnose (s : Transcript) (text : String) : Transcript :=
  { s with diagnostics := s.diagnostics ++ [text] }

def settle (s : Transcript) (entryId : String) : Transcript :=
  { s with settledEntryIds := s.settledEntryIds ++ [entryId] }

def message? (s : Transcript) (messageId : String) : Option Message :=
  s.messages.find? fun message => message.messageId = messageId

def tool? (s : Transcript) (toolCallId : String) : Option TemporalTool :=
  s.tools.find? fun tool => tool.toolCallId = toolCallId

def writeMessage (s : Transcript) (messageId : String) (g : Message → Message) : Transcript :=
  { s with messages := s.messages.map fun message =>
      if message.messageId = messageId then g message else message }

def openMessage (s : Transcript) (messageId role : String) : Transcript :=
  { s with messages := s.messages ++
      [{ messageId, role, status := .streaming, entryId := none, blocks := [] }] }

def ensureBlock (s : Transcript) (messageId : String) (contentIndex : Nat) (kind : BlockKind) :
    Transcript :=
  s.writeMessage messageId fun message =>
    { message with blocks := withBlock message.blocks contentIndex kind }

def writeBlock (s : Transcript) (messageId : String) (contentIndex : Nat)
    (g : TemporalContentBlock → TemporalContentBlock) : Transcript :=
  s.writeMessage messageId fun message =>
    { message with blocks := editBlock message.blocks contentIndex g }

/-- A tool call that starts again takes the place of the one before it too. -/
def startTool (s : Transcript) (tool : TemporalTool) : Transcript :=
  { s with tools := (s.tools.map fun other =>
      if other.toolCallId = tool.toolCallId then tool else other) ++ [tool] }

def writeTool (s : Transcript) (toolCallId : String) (g : TemporalTool → TemporalTool) :
    Transcript :=
  { s with tools := s.tools.map fun tool => if tool.toolCallId = toolCallId then g tool else tool }

def assist (s : Transcript) (message : Message) : AssistantStep → Transcript
  | .start contentIndex kind => s.ensureBlock message.messageId contentIndex kind
  | .finish contentIndex kind assistantType content =>
      let text := ((blockIn message.blocks contentIndex).map TemporalContentBlock.text).getD ""
      let s := s.ensureBlock message.messageId contentIndex kind
      let s :=
        if text ≠ "" ∧ text ≠ content then
          s.diagnose s!"{assistantType} mismatch for {message.messageId}:{contentIndex}"
        else s
      s.writeBlock message.messageId contentIndex fun block => { block with text := content }
  | .call contentIndex value =>
      (s.ensureBlock message.messageId contentIndex .toolCall).writeBlock message.messageId
        contentIndex fun block => { block with value }
  | .status status => s.writeMessage message.messageId fun message => { message with status }
  | .nothing => s

def finishMessage (knownEntries : List String) (s : Transcript) (messageId : String)
    (payload : Payload) : Transcript :=
  match payloadTrue payload "settled", truthy (payloadString payload "entryId") with
  | true, some entryId =>
      let s := (s.writeMessage messageId fun message =>
        { message with status := .settled, entryId := some entryId }).settle entryId
      if entryId ∈ knownEntries then s else s.diagnose s!"settled entry {entryId} is missing"
  | _, _ => s.writeMessage messageId fun message => { message with status := .unsettled }

def finishedTool (payload : Payload) (tool : TemporalTool) : TemporalTool :=
  { tool with
    status := if payloadTrue payload "isError" then .failed else .finished
    result := (payload.lookup "result").or tool.result }

def count (s : Transcript) (event : SessionEvent) : Transcript :=
  let s :=
    if event.seq ≠ s.throughSeq + 1 then
      s.diagnose s!"session event sequence gap at {s.throughSeq + 1}"
    else s
  { s with throughSeq := event.seq }

def onMessageStarted (s : Transcript) (event : SessionEvent) : Transcript :=
  match truthy event.messageId with
  | none => s.diagnose s!"message_started {event.seq} has no messageId"
  | some messageId =>
      match s.message? messageId with
      | some _ => s
      | none => s.openMessage messageId ((payloadString event.payload "role").getD "unknown")

def onAssistantEvent (s : Transcript) (event : SessionEvent) : Transcript :=
  match truthy event.messageId with
  | none => s.diagnose s!"assistant_event {event.seq} has no messageId"
  | some messageId =>
      match s.message? messageId with
      | none => s.diagnose s!"assistant_event {event.seq} precedes message_started"
      | some message => s.assist message (assistantStep event.payload)

def onMessageFinished (knownEntries : List String) (s : Transcript) (event : SessionEvent) :
    Transcript :=
  match truthy event.messageId with
  | none => s.diagnose s!"message_finished {event.seq} has no messageId"
  | some messageId =>
      match s.message? messageId with
      | none => s.diagnose s!"message_finished {event.seq} precedes message_started"
      | some _ => s.finishMessage knownEntries messageId event.payload

def onToolStarted (s : Transcript) (event : SessionEvent) : Transcript :=
  match truthy event.toolCallId, truthy event.messageId with
  | some toolCallId, some messageId =>
      s.startTool
        { toolCallId, messageId
          toolName := (payloadString event.payload "toolName").getD "tool"
          status := .running
          args := event.payload.lookup "args" }
  | _, _ => s.diagnose s!"tool_execution_started {event.seq} is uncorrelated"

def onToolFinished (s : Transcript) (event : SessionEvent) : Transcript :=
  match (truthy event.toolCallId).bind s.tool? with
  | none => s.diagnose s!"tool_execution_finished {event.seq} precedes start"
  | some tool => s.writeTool tool.toolCallId (finishedTool event.payload)

/-- What an event makes of a transcript. -/
def visit (knownEntries : List String) (event : SessionEvent) (s : Transcript) : Transcript :=
  let s := s.count event
  match event.type with
  | .message_started => s.onMessageStarted event
  | .assistant_event => s.onAssistantEvent event
  | .message_finished => s.onMessageFinished knownEntries event
  | .tool_execution_started => s.onToolStarted event
  | .tool_execution_finished => s.onToolFinished event
  | .turn_started | .turn_finished | .tool_execution_updated | .other _ => s

/-- The events up to a position, from a transcript on. -/
def reduceFrom (entries : List SessionEntry) (events : List SessionEvent) (throughSeq : Nat)
    (s : Transcript) : Transcript :=
  replay TemporalSessionState.throughSeq (visit (entryIds entries)) throughSeq events s

end Transcript

end PiWorkflows.SessionReplay
