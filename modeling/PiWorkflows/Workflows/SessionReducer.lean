import Mathlib.Algebra.Order.Field.Rat
import PiWorkflows.Js.Json
import PiWorkflows.Lib.Table

/-!
# The session reducer (`workflows/session-reducer.ts`)

A replayed session is folded from its events. The fold keeps the blocks of a
message, the tool calls and two lists of texts as objects it writes to, and the
state it returns refers to these very objects, so whether a checkpoint can be
spoiled later is a question about objects. They are cells of a memory here, one
list of cells for each kind, and a state holds addresses.

The objects that the fold builds and that never leave it (its maps and its
messages) and the ones it writes once on return are plain values.
-/

namespace PiWorkflows.SessionReplay

/-! ## Events -/

/-- `Record<string, unknown>`. -/
abbrev Payload := List (String × Json)

inductive SessionEventType where
  | turn_started
  | turn_finished
  | message_started
  | assistant_event
  | message_finished
  | tool_execution_started
  | tool_execution_updated
  | tool_execution_finished
  | other (name : String)
  deriving DecidableEq

/-- `WorkflowSessionEventRecord`. -/
structure SessionEvent where
  seq : Nat
  at_ : String
  nodeId : String
  attemptId : String
  messageId : Option String := none
  toolCallId : Option String := none
  type : SessionEventType
  payload : Payload := []

/-- `WorkflowSessionEntryRecord`, as far as it is read. -/
structure SessionEntry where
  entry : Payload

def payloadString (payload : Payload) (key : String) : Option String :=
  textMember (.obj payload) key

def payloadIndex (payload : Payload) : Option Nat :=
  naturalMember (.obj payload) "contentIndex"

/-- `payload[key] === true`. -/
def payloadTrue (payload : Payload) (key : String) : Bool :=
  boolMember (.obj payload) key == some true

/-- A text that counts as true. -/
def truthy (text : Option String) : Option String :=
  text.filter (· ≠ "")

def entryIds (entries : List SessionEntry) : List String :=
  entries.filterMap fun record => payloadString record.entry "id"

/-! ## States -/

inductive BlockKind where
  | text
  | thinking
  | toolCall
  deriving DecidableEq, Inhabited

structure TemporalContentBlock where
  contentIndex : Nat
  kind : BlockKind
  text : String := ""
  value : Option Json := none
  deriving DecidableEq, Inhabited

inductive MessageStatus where
  | streaming
  | finished
  | error
  | settled
  | unsettled
  deriving DecidableEq

inductive ToolStatus where
  | running
  | finished
  | failed
  deriving DecidableEq, Inhabited

structure TemporalTool where
  toolCallId : String
  messageId : String
  toolName : String
  status : ToolStatus
  args : Option Json := none
  result : Option Json := none
  deriving DecidableEq, Inhabited

/-- A message, with its blocks as they are held. -/
structure TemporalMessage (β : Type) where
  messageId : String
  role : String
  status : MessageStatus
  entryId : Option String
  blocks : List β
  deriving DecidableEq

/-- A state, with its blocks, tool calls and lists of texts as they are held. -/
@[ext]
structure TemporalSessionState (β τ δ : Type) where
  throughSeq : Nat
  messages : List (TemporalMessage β)
  tools : List τ
  settledEntryIds : δ
  diagnostics : δ
  deriving DecidableEq

/-- What an assistant event says about its message. -/
inductive AssistantStep where
  | start (contentIndex : Nat) (kind : BlockKind)
  | finish (contentIndex : Nat) (kind : BlockKind) (assistantType content : String)
  | call (contentIndex : Nat) (value : Option Json)
  | status (status : MessageStatus)
  | nothing

/-- The branches of `assistant_event` that need no index. -/
def endingStep (assistantType : Option String) : AssistantStep :=
  if assistantType = some "done" then .status .finished
  else if assistantType = some "error" then .status .error
  else .nothing

/-- The branch that an assistant event takes. -/
def assistantStep (payload : Payload) : AssistantStep :=
  let assistantType := payloadString payload "type"
  let content := (payloadString payload "content").getD ""
  match payloadIndex payload with
  | none => endingStep assistantType
  | some contentIndex =>
      if assistantType = some "text_start" then .start contentIndex .text
      else if assistantType = some "thinking_start" then .start contentIndex .thinking
      else if assistantType = some "toolcall_start" then .start contentIndex .toolCall
      else if assistantType = some "text_end" then .finish contentIndex .text "text_end" content
      else if assistantType = some "thinking_end" then
        .finish contentIndex .thinking "thinking_end" content
      else if assistantType = some "toolcall_end" then
        .call contentIndex (payload.lookup "toolCall")
      else endingStep assistantType

/-- The loop over the events: an event that has been seen is skipped, and the first
one past the end stops it. -/
def replay {σ : Type} (lastSeq : σ → Nat) (visit : SessionEvent → σ → σ) (throughSeq : Nat) :
    List SessionEvent → σ → σ
  | [], s => s
  | event :: rest, s =>
      if event.seq ≤ lastSeq s then replay lastSeq visit throughSeq rest s
      else if throughSeq < event.seq then s
      else replay lastSeq visit throughSeq rest (visit event s)

/-! ## Objects -/

/-- The objects that are written to, by address. -/
structure Memory where
  blocks : List TemporalContentBlock := []
  tools : List TemporalTool := []
  texts : List (List String) := []

namespace Memory

def newBlock (memory : Memory) (block : TemporalContentBlock) : Nat × Memory :=
  (memory.blocks.length, { memory with blocks := memory.blocks ++ [block] })

def newTool (memory : Memory) (tool : TemporalTool) : Nat × Memory :=
  (memory.tools.length, { memory with tools := memory.tools ++ [tool] })

def newTexts (memory : Memory) (texts : List String) : Nat × Memory :=
  (memory.texts.length, { memory with texts := memory.texts ++ [texts] })

def writeBlock (memory : Memory) (address : Nat) (f : TemporalContentBlock → TemporalContentBlock) :
    Memory :=
  { memory with blocks := memory.blocks.modify address f }

def writeTool (memory : Memory) (address : Nat) (f : TemporalTool → TemporalTool) : Memory :=
  { memory with tools := memory.tools.modify address f }

def push (memory : Memory) (address : Nat) (text : String) : Memory :=
  { memory with texts := memory.texts.modify address fun texts => texts ++ [text] }

def block (memory : Memory) (address : Nat) : TemporalContentBlock :=
  memory.blocks.getD address default

def tool (memory : Memory) (address : Nat) : TemporalTool :=
  memory.tools.getD address default

def text (memory : Memory) (address : Nat) : List String :=
  memory.texts.getD address []

end Memory

/-- A state as an object: addresses of what it refers to. -/
abbrev StateObject := TemporalSessionState Nat Nat Nat

/-- What a state object says, read through its addresses. -/
abbrev Transcript := TemporalSessionState TemporalContentBlock TemporalTool (List String)

def StateObject.read (memory : Memory) (state : StateObject) : Transcript where
  throughSeq := state.throughSeq
  messages := state.messages.map fun message =>
    { message with blocks := message.blocks.map memory.block }
  tools := state.tools.map memory.tool
  settledEntryIds := memory.text state.settledEntryIds
  diagnostics := memory.text state.diagnostics

/-! ## The fold -/

/-- A message while the fold runs; its blocks are in a map from their index. -/
structure MutableMessage where
  messageId : String
  role : String
  status : MessageStatus
  entryId : Option String
  blocks : Table Nat Nat

/-- The variables of `foldSessionEvents`, and the memory. -/
structure Folding where
  memory : Memory
  messages : Table String MutableMessage
  messageOrder : List String
  tools : Table String Nat
  toolOrder : List String
  settledEntryIds : Nat
  diagnostics : Nat
  expectedSeq : Nat
  lastSeq : Nat

namespace Folding

def diagnose (f : Folding) (text : String) : Folding :=
  { f with memory := f.memory.push f.diagnostics text }

def settle (f : Folding) (entryId : String) : Folding :=
  { f with memory := f.memory.push f.settledEntryIds entryId }

def writeMessage (f : Folding) (messageId : String) (g : MutableMessage → MutableMessage) : Folding :=
  { f with messages := f.messages.update messageId g }

def writeBlock (f : Folding) (address : Nat) (g : TemporalContentBlock → TemporalContentBlock) :
    Folding :=
  { f with memory := f.memory.writeBlock address g }

/-- `message_started` of a message that is not there yet. -/
def openMessage (f : Folding) (messageId role : String) : Folding :=
  { f with
    messages := f.messages.put messageId
      { messageId, role, status := .streaming, entryId := none, blocks := .empty }
    messageOrder := f.messageOrder ++ [messageId] }

/-- `ensureBlock`: the address of the block, which is new where there is none. -/
def ensureBlock (f : Folding) (message : MutableMessage) (contentIndex : Nat) (kind : BlockKind) :
    Nat × Folding :=
  match message.blocks.get? contentIndex with
  | some address => (address, f)
  | none =>
      let (address, memory) := f.memory.newBlock { contentIndex, kind }
      (address, { f with
        memory
        messages := f.messages.update message.messageId fun message =>
          { message with blocks := message.blocks.put contentIndex address } })

def startTool (f : Folding) (tool : TemporalTool) : Folding :=
  let (address, memory) := f.memory.newTool tool
  { f with
    memory
    tools := f.tools.put tool.toolCallId address
    toolOrder := f.toolOrder ++ [tool.toolCallId] }

/-- The branches of `assistant_event`, for a message that is there. -/
def assist (f : Folding) (message : MutableMessage) : AssistantStep → Folding
  | .start contentIndex kind => (f.ensureBlock message contentIndex kind).2
  | .finish contentIndex kind assistantType content =>
      let (address, f) := f.ensureBlock message contentIndex kind
      let text := (f.memory.block address).text
      let f :=
        if text ≠ "" ∧ text ≠ content then
          f.diagnose s!"{assistantType} mismatch for {message.messageId}:{contentIndex}"
        else f
      f.writeBlock address fun block => { block with text := content }
  | .call contentIndex value =>
      let (address, f) := f.ensureBlock message contentIndex .toolCall
      f.writeBlock address fun block => { block with value }
  | .status status => f.writeMessage message.messageId fun message => { message with status }
  | .nothing => f

/-- `message_finished`, for a message that is there. -/
def finishMessage (knownEntries : List String) (f : Folding) (messageId : String)
    (payload : Payload) : Folding :=
  match payloadTrue payload "settled", truthy (payloadString payload "entryId") with
  | true, some entryId =>
      let f := f.writeMessage messageId fun message =>
        { message with status := .settled, entryId := some entryId }
      let f := f.settle entryId
      if entryId ∈ knownEntries then f else f.diagnose s!"settled entry {entryId} is missing"
  | _, _ => f.writeMessage messageId fun message => { message with status := .unsettled }

/-- `tool_execution_finished`, for a tool call that is there. -/
def finishTool (f : Folding) (address : Nat) (payload : Payload) : Folding :=
  let status : ToolStatus := if payloadTrue payload "isError" then .failed else .finished
  { f with
    memory := f.memory.writeTool address fun tool =>
      { tool with status, result := (payload.lookup "result").or tool.result } }

/-- What the loop does with an event before it looks at its type. -/
def count (f : Folding) (event : SessionEvent) : Folding :=
  let f :=
    if event.seq ≠ f.expectedSeq then
      f.diagnose s!"session event sequence gap at {f.expectedSeq}"
    else f
  { f with expectedSeq := event.seq + 1, lastSeq := event.seq }

def onMessageStarted (f : Folding) (event : SessionEvent) : Folding :=
  match truthy event.messageId with
  | none => f.diagnose s!"message_started {event.seq} has no messageId"
  | some messageId =>
      match f.messages.get? messageId with
      | some _ => f
      | none => f.openMessage messageId ((payloadString event.payload "role").getD "unknown")

def onAssistantEvent (f : Folding) (event : SessionEvent) : Folding :=
  match truthy event.messageId with
  | none => f.diagnose s!"assistant_event {event.seq} has no messageId"
  | some messageId =>
      match f.messages.get? messageId with
      | none => f.diagnose s!"assistant_event {event.seq} precedes message_started"
      | some message => f.assist message (assistantStep event.payload)

def onMessageFinished (knownEntries : List String) (f : Folding) (event : SessionEvent) : Folding :=
  match truthy event.messageId with
  | none => f.diagnose s!"message_finished {event.seq} has no messageId"
  | some messageId =>
      match f.messages.get? messageId with
      | none => f.diagnose s!"message_finished {event.seq} precedes message_started"
      | some _ => f.finishMessage knownEntries messageId event.payload

def onToolStarted (f : Folding) (event : SessionEvent) : Folding :=
  match truthy event.toolCallId, truthy event.messageId with
  | some toolCallId, some messageId =>
      f.startTool
        { toolCallId, messageId
          toolName := (payloadString event.payload "toolName").getD "tool"
          status := .running
          args := event.payload.lookup "args" }
  | _, _ => f.diagnose s!"tool_execution_started {event.seq} is uncorrelated"

def onToolFinished (f : Folding) (event : SessionEvent) : Folding :=
  match (truthy event.toolCallId).bind f.tools.get? with
  | none => f.diagnose s!"tool_execution_finished {event.seq} precedes start"
  | some address => f.finishTool address event.payload

/-- One round of the loop, for an event it does not pass over. -/
def visit (knownEntries : List String) (event : SessionEvent) (f : Folding) : Folding :=
  let f := f.count event
  match event.type with
  | .message_started => f.onMessageStarted event
  | .assistant_event => f.onAssistantEvent event
  | .message_finished => f.onMessageFinished knownEntries event
  | .tool_execution_started => f.onToolStarted event
  | .tool_execution_finished => f.onToolFinished event
  | .turn_started | .turn_finished | .tool_execution_updated | .other _ => f

/-! ### Beginning and end -/

/-- `{ ...block }` for each block, into the map of its message. -/
def copyBlocks : List Nat → Table Nat Nat → Memory → Table Nat Nat × Memory
  | [], blocks, memory => (blocks, memory)
  | address :: rest, blocks, memory =>
      let block := memory.block address
      let (copy, memory) := memory.newBlock block
      copyBlocks rest (blocks.put block.contentIndex copy) memory

/-- The messages of an earlier state. -/
def copyMessages : List (TemporalMessage Nat) → Folding → Folding
  | [], f => f
  | message :: rest, f =>
      let (blocks, memory) := copyBlocks message.blocks .empty f.memory
      copyMessages rest { f with
        memory
        messages := f.messages.put message.messageId
          { messageId := message.messageId, role := message.role, status := message.status
            entryId := message.entryId, blocks }
        messageOrder := f.messageOrder ++ [message.messageId] }

/-- The tool calls of an earlier state. -/
def copyTools : List Nat → Folding → Folding
  | [], f => f
  | address :: rest, f => copyTools rest (f.startTool (f.memory.tool address))

/-- The variables before the loop. -/
def begin (initial : Option StateObject) (memory : Memory) : Folding :=
  let settled := (initial.map fun state => memory.text state.settledEntryIds).getD []
  let diagnosed := (initial.map fun state => memory.text state.diagnostics).getD []
  let throughSeq := (initial.map TemporalSessionState.throughSeq).getD 0
  let (settledEntryIds, memory) := memory.newTexts settled
  let (diagnostics, memory) := memory.newTexts diagnosed
  let f : Folding :=
    { memory, messages := .empty, messageOrder := [], tools := .empty, toolOrder := []
      settledEntryIds, diagnostics, expectedSeq := throughSeq + 1, lastSeq := throughSeq }
  match initial with
  | none => f
  | some state => copyTools state.tools (copyMessages state.messages f)

/-- `blocks.values().toSorted(…)`. -/
def sortedBlocks (memory : Memory) (message : MutableMessage) : List Nat :=
  (message.blocks.rows.map Prod.snd).mergeSort fun left right =>
    decide ((memory.block left).contentIndex ≤ (memory.block right).contentIndex)

/-- The object that `foldSessionEvents` returns. -/
def state (f : Folding) : StateObject where
  throughSeq := f.lastSeq
  messages := f.messageOrder.filterMap fun messageId =>
    (f.messages.get? messageId).map fun message =>
      { messageId := message.messageId, role := message.role, status := message.status
        entryId := message.entryId, blocks := sortedBlocks f.memory message }
  tools := f.toolOrder.filterMap f.tools.get?
  settledEntryIds := f.settledEntryIds
  diagnostics := f.diagnostics

end Folding

def foldSessionEvents (entries : List SessionEntry) (events : List SessionEvent) (throughSeq : Nat)
    (initial : Option StateObject) (memory : Memory) : StateObject × Memory :=
  let folded := replay Folding.lastSeq (Folding.visit (entryIds entries)) throughSeq events
    (Folding.begin initial memory)
  (folded.state, folded.memory)

def reduceSessionEvents (entries : List SessionEntry) (events : List SessionEvent)
    (throughSeq : Nat) (memory : Memory) : StateObject × Memory :=
  foldSessionEvents entries events throughSeq none memory

/-! ## The seek index -/

structure SessionReplayIndex where
  entries : List SessionEntry
  events : List SessionEvent
  checkpoints : List (Nat × StateObject)

/-- The values that `end` takes in the constructor: `interval - 1` and on by
`interval`, while there are events. An interval of at least one takes fewer steps
than there are events. -/
def checkpointEnds (interval : ℚ) (length : Nat) : List ℚ :=
  ((List.range length).map fun (k : Nat) => ((k : ℚ) + 1) * interval - 1).filter fun e =>
    decide (e < length)

/-- `events[end]?.seq`: an index between two positions finds nothing. -/
def seqAt (events : List SessionEvent) (e : ℚ) : Option Nat :=
  if e.den = 1 ∧ 0 ≤ e then (events[e.num.toNat]?).map SessionEvent.seq else none

def checkpointsFrom (entries : List SessionEntry) (events : List SessionEvent) :
    List ℚ → StateObject → Memory → List (Nat × StateObject) × Memory
  | [], _, memory => ([], memory)
  | e :: rest, state, memory =>
      let seq := (seqAt events e).getD state.throughSeq
      let (state, memory) := foldSessionEvents entries events seq (some state) memory
      let (checkpoints, memory) := checkpointsFrom entries events rest state memory
      ((seq, state) :: checkpoints, memory)

/-- The constructor. -/
def SessionReplayIndex.new (entries : List SessionEntry) (events : List SessionEvent)
    (checkpointInterval : ℚ) (memory : Memory) : SessionReplayIndex × Memory :=
  let (state, memory) := foldSessionEvents entries events 0 none memory
  let (checkpoints, memory) :=
    checkpointsFrom entries events (checkpointEnds checkpointInterval events.length) state memory
  ({ entries, events, checkpoints := (0, state) :: checkpoints }, memory)

def SessionReplayIndex.stateAtSeq (index : SessionReplayIndex) (throughSeq : Nat) (memory : Memory) :
    StateObject × Memory :=
  let checkpoint := index.checkpoints.reverse.find? fun checkpoint => checkpoint.1 ≤ throughSeq
  foldSessionEvents index.entries index.events throughSeq (checkpoint.map Prod.snd) memory

/-- One read after another. -/
def SessionReplayIndex.statesAt (index : SessionReplayIndex) :
    List Nat → Memory → List StateObject × Memory
  | [], memory => ([], memory)
  | throughSeq :: rest, memory =>
      let (state, memory) := index.stateAtSeq throughSeq memory
      let (states, memory) := index.statesAt rest memory
      (state :: states, memory)

end PiWorkflows.SessionReplay
