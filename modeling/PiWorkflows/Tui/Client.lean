import PiWorkflows.Lib.Trace
import PiWorkflows.Server.Contents

/-!
# What the terminal holds of the runs (`tui/src/client.rs`)

The worker thread stores the snapshots, pages and contents that the server sends,
and the user's thread decodes the snapshot of the run it shows. A decoded view and
the reason why there is none are kept under the number that the raw snapshot had.
Both threads hold the lock of `Shared` for a whole call, so a run is a list of calls.

How the fields of a view are read off the JSON is a parameter, since what is kept
does not depend on it. The list of runs and the texts of the connection's state are
left out, as is the waking of the worker. Maps are tables, `u64` numbers are natural
numbers and wrap where the source wraps them.
-/

namespace PiWorkflows.Tui

open Fallible

/-- `u64::wrapping_add(1)`. -/
def wrappingSucc (n : Nat) : Nat :=
  (n + 1) % 2 ^ 64

/-- `Value::as_u64`. -/
def asU64 : Json → Option Nat
  | .num n =>
      let k := Nat.ofDigitChars 10 n.text.toList 0
      if n.text = k.repr ∧ k < 2 ^ 64 then some k else none
  | _ => none

/-- A member that is a `u64`. -/
def u64Member (value : Json) (key : String) : Option Nat :=
  (value.member? key).bind asU64

/-- `PageKind`. -/
inductive PageKind where
  | steps
  | trace
  | traceAtStep
  | sessionEntries
  | sessionEvents
  | settings
  | followUps
  | updates
  deriving DecidableEq

/-- `page_name`. -/
def pageName : PageKind → String
  | .steps => "steps"
  | .trace => "trace"
  | .traceAtStep => "trace_at_step"
  | .sessionEntries => "session_entries"
  | .sessionEvents => "session_events"
  | .settings => "settings"
  | .followUps => "follow_ups"
  | .updates => "updates"

/-- `page_kind`. -/
def pageKind (value : String) : Option PageKind :=
  [PageKind.steps, .trace, .traceAtStep, .sessionEntries, .sessionEvents, .settings, .followUps,
    .updates].find? fun kind => pageName kind = value

/-! ## State -/

/-- `ArtifactEntry`. -/
inductive ArtifactEntry where
  | loading (bytes : Bytes)
  | ready (content : String)
  | error (message : String)

/-- A raw snapshot as `raw_views` holds it. -/
structure RawView where
  eventRevision : Nat
  viewRevision : Nat
  generation : Nat
  value : Json
  deriving DecidableEq

/-- `Shared`. -/
structure Shared where
  rawViews : Table String RawView := .empty
  nextViewGeneration : Nat := 0
  watched : List String := []
  pageRequests : Table (String × PageKind) Nat := .empty
  contentRequests : Table (String × String) Nat := .empty
  artifacts : Table (String × String) ArtifactEntry := .empty

/-- `ContentState`. -/
inductive ContentState where
  | absent
  | pending
  | ready (content : String)
  | invalid (error : String)
  deriving DecidableEq

/-- `ViewContent`. -/
structure ViewContent where
  definition : ContentState := .absent
  graphHistory : ContentState := .absent
  displayReason : ContentState := .absent

/-- `RemoteView`: the revision and the number it was decoded for, and its other fields. -/
structure RemoteView (α : Type) where
  revision : Nat
  generation : Nat
  fields : α
  deriving DecidableEq

/-- `DecodeOutcome`. -/
inductive DecodeOutcome (α : Type) where
  | ready (view : RemoteView α)
  | pendingContent
  | invalid (reason : String)

/-- `CachedDecodeState`. -/
inductive CachedDecodeState where
  | pendingContent
  | invalid (error : String)

/-- `RemoteRuns`. -/
structure RemoteRuns (α : Type) where
  shared : Shared := {}
  decoded : Table String (RemoteView α) := .empty
  decodeStates : Table String (Nat × CachedDecodeState) := .empty

/-! ## Decoding -/

/-- What reads a view: the fields that are looked at before any content, and the others. -/
structure ViewDecoder (α : Type) where
  required : Json → Except String PUnit
  fields : Nat → Json → ViewContent → Except String α

namespace ViewContent

def items (content : ViewContent) : List ContentState :=
  [content.definition, content.graphHistory, content.displayReason]

/-- The first error among the contents. -/
def invalid? (content : ViewContent) : Option String :=
  content.items.findSome? fun
    | .invalid error => some error
    | _ => none

end ViewContent

/-- `decode_view`. -/
def decodeView {α : Type} (decoder : ViewDecoder α) (revision generation : Nat) (raw : Json)
    (content : ViewContent) : DecodeOutcome α :=
  match decoder.required raw with
  | .error reason => .invalid reason
  | .ok _ =>
      match content.invalid? with
      | some reason => .invalid reason
      | none =>
          if .pending ∈ content.items then .pendingContent
          else
            match decoder.fields revision raw content with
            | .error reason => .invalid reason
            | .ok fields => .ready ⟨revision, generation, fields⟩

/-- `ArtifactRef`. -/
structure ArtifactRef where
  path : String
  mediaType : String
  bytes : Nat
  sha256 : String

/-- `serde_json::from_value::<ArtifactRef>`: an object with the fields, or their values in order. -/
def artifactRef? : Json → Option ArtifactRef
  | .arr [.str path, .str mediaType, bytes, .str sha256] => do
      let bytes ← asU64 bytes
      some ⟨path, mediaType, bytes, sha256⟩
  | value => do
      let path ← textMember value "path"
      let mediaType ← textMember value "mediaType"
      let bytes ← u64Member value "bytes"
      let sha256 ← textMember value "sha256"
      some ⟨path, mediaType, bytes, sha256⟩

/-- `as_artifact_ref`. -/
def asArtifactRef : Json → Option ArtifactRef
  | .obj members =>
      if soleKey members = some "$artifact" then (members.lookup "$artifact").bind artifactRef?
      else none
  | _ => none

/-- `workflow_definition_artifact`. -/
def workflowDefinitionArtifact (raw : Json) : Option ArtifactRef := do
  let workflow ← raw.member? "workflow"
  (asArtifactRef workflow).or ((workflow.member? "content").bind asArtifactRef)

/-- `graph_history_artifact`. -/
def graphHistoryArtifact (raw : Json) : Option ArtifactRef :=
  (raw.member? "graphHistory").bind asArtifactRef

/-- `display_reason_artifact`. -/
def displayReasonArtifact (raw : Json) : Option ArtifactRef := do
  let display ← raw.member? "display"
  let reason ← display.member? "reasonContent"
  asArtifactRef reason

section Content

variable (sha256 : Bytes → Vector UInt8 32)

/-- Whether a content is the one that a reference means. -/
def fitsReference (artifact : ArtifactRef) (acceptedMediaTypes : List String)
    (content : String) : Bool :=
  decide (artifact.mediaType ∈ acceptedMediaTypes) &&
    decide (byteLength content = artifact.bytes) &&
    decide (String.ofList (hexDigest sha256 (encodeUtf8 content.toList)) = artifact.sha256)

/-- `referenced_content`. -/
def referencedContent (state : Shared) (runId : String) (artifact : ArtifactRef)
    (acceptedMediaTypes : List String) (label : String) : ContentState × Shared :=
  let key := (runId, artifact.path)
  match state.artifacts.get? key with
  | some (.ready content) =>
      if fitsReference sha256 artifact acceptedMediaTypes content then (.ready content, state)
      else
        (.invalid s!"{label} content is invalid",
          { state with
            artifacts := state.artifacts.put key
              (.error s!"{label} content does not match its reference") })
  | some (.error _) => (.invalid s!"{label} content is invalid", state)
  | some (.loading _) => (.pending, state)
  | none =>
      (.pending,
        { state with
          artifacts := state.artifacts.put key (.loading [])
          contentRequests := state.contentRequests.put key 0 })

/-- `workflow_definition_content`, `graph_history_content`, `display_reason_content`. -/
def artifactContent (state : Shared) (runId : String) (artifact : Option ArtifactRef)
    (acceptedMediaTypes : List String) (label : String) : ContentState × Shared :=
  match artifact with
  | none => (.absent, state)
  | some artifact => referencedContent sha256 state runId artifact acceptedMediaTypes label

/-- The contents a view is decoded with. Those that are missing are asked for. -/
def viewContent (state : Shared) (runId : String) (raw : Json) : ViewContent × Shared :=
  let (definition, state) := artifactContent sha256 state runId (workflowDefinitionArtifact raw)
    ["application/json"] "workflow definition"
  let (graphHistory, state) := artifactContent sha256 state runId (graphHistoryArtifact raw)
    ["application/json"] "workflow graph history"
  let (displayReason, state) := artifactContent sha256 state runId (displayReasonArtifact raw)
    ["text/plain", "application/json"] "workflow display reason"
  (⟨definition, graphHistory, displayReason⟩, state)

end Content

/-! ## The user's calls -/

/-- `discard_run_state`. -/
def discardRunState (shared : Shared) (runId : String) : Shared :=
  { shared with
    rawViews := shared.rawViews.erase runId
    pageRequests := shared.pageRequests.deleteWhere fun key _ => key.1 = runId
    contentRequests := shared.contentRequests.deleteWhere fun key _ => key.1 = runId
    artifacts := shared.artifacts.deleteWhere fun key _ => key.1 = runId }

namespace RemoteRuns

variable {α : Type}

/-- What `watch` drops of a run that was watched before. -/
def leave (runs : RemoteRuns α) (runId : String) : RemoteRuns α where
  shared := discardRunState runs.shared runId
  decoded := runs.decoded.erase runId
  decodeStates := runs.decodeStates.erase runId

/-- `watch`. -/
def watch (runs : RemoteRuns α) (runId : String) : RemoteRuns α :=
  let left := (runs.shared.watched.filter (· ≠ runId)).foldl leave runs
  { left with shared := { left.shared with watched := [runId] } }

/-- `request_page`. -/
def requestPage (runs : RemoteRuns α) (runId : String) (kind : PageKind) (cursor : Nat) :
    RemoteRuns α :=
  { runs with
    shared := { runs.shared with
      pageRequests := runs.shared.pageRequests.put (runId, kind) cursor } }

/-- `request_artifact`. -/
def requestArtifact (runs : RemoteRuns α) (runId path : String) : RemoteRuns α :=
  let shared := runs.shared
  if (shared.artifacts.get? (runId, path)).isSome then runs
  else
    { runs with
      shared := { shared with
        artifacts := shared.artifacts.put (runId, path) (.loading [])
        contentRequests := shared.contentRequests.put (runId, path) 0 } }

/-- What `view` keeps of a decoded snapshot. -/
def keepOutcome (runs : RemoteRuns α) (runId : String) (generation : Nat) :
    DecodeOutcome α → RemoteRuns α
  | .ready view =>
      { runs with
        decoded := runs.decoded.put runId view
        decodeStates := runs.decodeStates.erase runId }
  | .pendingContent =>
      { runs with decodeStates := runs.decodeStates.put runId (generation, .pendingContent) }
  | .invalid reason =>
      { runs with
        decoded := runs.decoded.erase runId
        decodeStates := runs.decodeStates.put runId
          (generation, .invalid s!"Workflow run snapshot is invalid: {reason}.") }

/-- `view`. -/
def view (sha256 : Bytes → Vector UInt8 32) (decoder : ViewDecoder α) (runs : RemoteRuns α)
    (runId : String) : Option (RemoteView α) × RemoteRuns α :=
  match runs.shared.rawViews.get? runId with
  | none =>
      (none, { runs with
        decoded := runs.decoded.erase runId
        decodeStates := runs.decodeStates.erase runId })
  | some raw =>
      if (runs.decoded.get? runId).any (fun view => view.generation = raw.generation) then
        (runs.decoded.get? runId, { runs with decodeStates := runs.decodeStates.erase runId })
      else if (runs.decodeStates.get? runId).any (fun cached => cached.1 = raw.generation) then
        (runs.decoded.get? runId, runs)
      else
        let content := viewContent sha256 runs.shared runId raw.value
        let outcome := decodeView decoder raw.viewRevision raw.generation raw.value content.1
        let runs := keepOutcome { runs with shared := content.2 } runId raw.generation outcome
        (runs.decoded.get? runId, runs)

end RemoteRuns

/-! ## The server's messages -/

/-- A message of the server, as far as it is read here. -/
inductive ServerMessage where
  | hello
  | runSnapshot (runId : Option String) (revision : Option Nat) (payload : Json)
  | response (outcome : String) (receipt : Option Json)

/-- `store_snapshot`. -/
def storeSnapshot (state : Shared) (runId : String) (eventRevision : Nat) (value : Json) : Shared :=
  let generation := wrappingSucc state.nextViewGeneration
  let viewRevision := (u64Member value "revision").getD eventRevision
  { state with
    nextViewGeneration := generation
    rawViews := state.rawViews.put runId ⟨eventRevision, viewRevision, generation, value⟩ }

def RawView.bump (raw : RawView) : RawView :=
  { raw with generation := wrappingSucc raw.generation }

/-- `bump_view_generation`. -/
def bumpViewGeneration (state : Shared) (runId : String) : Shared :=
  { state with rawViews := state.rawViews.update runId RawView.bump }

/-- The bytes of a base64 text with its padding; anything else is not decoded. -/
def decodeBase64 (text : String) : Option Bytes :=
  let bytes := bytesOfBase64 text.toList
  if base64OfBytes bytes = text.toList then some bytes else none

/-- `String::from_utf8`. -/
def textOfUtf8 (bytes : Bytes) : Option String :=
  let text := decodeUtf8 bytes
  if encodeUtf8 text = bytes then some (String.ofList text) else none

/-- The fields of a content chunk. -/
structure ContentChunk where
  runId : String
  path : String
  offset : Nat
  nextOffset : Nat
  total : Nat
  sha256 : String
  complete : Bool
  data : Bytes

/-- The fields that `merge_content` reads first. -/
def contentChunk? (receipt : Json) : Except String ContentChunk := do
  let runId ← orThrow "content chunk has no runId" (textMember receipt "runId")
  let path ← orThrow "content chunk has no path" (textMember receipt "path")
  let offset ← orThrow "content chunk has no offset" (u64Member receipt "offset")
  let nextOffset ← orThrow "content chunk has no nextOffset" (u64Member receipt "nextOffset")
  let total ← orThrow "content chunk has no byte total" (u64Member receipt "bytes")
  let sha256 ← orThrow "content chunk has no digest" (textMember receipt "sha256")
  let complete ← orThrow "content chunk has no completion marker" (boolMember receipt "complete")
  let data ← orThrow "content chunk has no data" (textMember receipt "data")
  let data ← orThrow "content chunk is not valid base64" (decodeBase64 data)
  pure ⟨runId, path, offset, nextOffset, total, sha256, complete, data⟩

section Contents

variable (sha256 : Bytes → Vector UInt8 32)

/-- The entry of a content whose last chunk has come. -/
def completeEntry (chunk : ContentChunk) (bytes : Bytes) : ArtifactEntry :=
  if bytes.length ≠ chunk.total ∨ chunk.nextOffset ≠ chunk.total ∨
      String.ofList (hexDigest sha256 bytes) ≠ chunk.sha256 then
    .error "workflow content digest does not match"
  else
    match textOfUtf8 bytes with
    | some content => .ready content
    | none => .error "workflow content is not UTF-8"

/-- A content that is no longer loading. -/
def settleContent (state : Shared) (key : String × String) (entry : ArtifactEntry) : Shared :=
  bumpViewGeneration
    { state with
      artifacts := state.artifacts.put key entry
      contentRequests := state.contentRequests.erase key } key.1

/-- A chunk behind the bytes that are there. -/
def mergeChunk (state : Shared) (chunk : ContentChunk) (bytes : Bytes) : Shared :=
  let key := (chunk.runId, chunk.path)
  if bytes.length ≠ chunk.offset ∨
      min (chunk.offset + chunk.data.length) (2 ^ 64 - 1) ≠ chunk.nextOffset then
    settleContent state key (.error "workflow content chunk offset is invalid")
  else if chunk.complete then
    settleContent state key (completeEntry sha256 chunk (bytes ++ chunk.data))
  else
    { state with
      artifacts := state.artifacts.put key (.loading (bytes ++ chunk.data))
      contentRequests := state.contentRequests.put key chunk.nextOffset }

/-- `merge_content`. -/
def mergeContent (state : Shared) (receipt : Json) : Except String Shared := do
  let chunk ← contentChunk? receipt
  match state.artifacts.get? (chunk.runId, chunk.path) with
  | some (.loading bytes) => pure (mergeChunk sha256 state chunk bytes)
  | _ => pure state

end Contents

/-- `value[key] = item`: null becomes an object, and what is not an object panics. -/
def setMember (value : Json) (key : String) (item : Json) : Except String Json :=
  match value with
  | .null => pure (.obj [(key, item)])
  | .obj members => pure (.obj (Assoc.setKey key item members))
  | _ => .error s!"cannot access key {key} in JSON value"

/-- A member of a member, where the latter is an object. -/
def setInner (value : Json) (key inner : String) (item : Json) : Json :=
  match value.member? key, value with
  | some (.obj innerMembers), .obj members =>
      .obj (Assoc.setKey key (.obj (Assoc.setKey inner item innerMembers)) members)
  | _, value => value

/-- The fields of a page. -/
structure RunPage where
  runId : String
  kind : PageKind
  start : Nat
  total : Nat
  items : List Json
  cursor : Nat
  revision : Nat
  receipt : Json

/-- The fields that `merge_page` reads first. -/
def runPage? (receipt : Json) : Except String RunPage := do
  let runId ← orThrow "run page has no runId" (textMember receipt "runId")
  let kind ← orThrow "run page has no kind" (textMember receipt "kind")
  let start := (u64Member receipt "start").getD 0
  let total := (u64Member receipt "total").getD 0
  let items ← orThrow "run page items are not an array"
    (match receipt.member? "items" with
      | some (.arr items) => some items
      | _ => none)
  let kind ← orThrow "run page kind is invalid" (pageKind kind)
  let cursor ← orThrow "run page has no cursor" (u64Member receipt "cursor")
  let revision ← orThrow "run page has no revision" (u64Member receipt "revision")
  pure ⟨runId, kind, start, total, items, cursor, revision, receipt⟩

namespace RunPage

/-- `{"start": …, "total": …, "items": …}`. -/
def toJson (page : RunPage) : Json :=
  .obj [("start", .num (.ofNat page.start)), ("total", .num (.ofNat page.total)),
    ("items", .arr page.items)]

/-- The items of a list in a view, where they start and how many there are. -/
def setList (page : RunPage) (view : Json) (list start total : String) : Except String Json := do
  let view ← setMember view list (.arr page.items)
  let view ← setMember view start (.num (.ofNat page.start))
  setMember view total (.num (.ofNat page.total))

/-- A page of the session. -/
def setSession (page : RunPage) (view : Json) (key : String) : Except String Json :=
  match view.member? "session" with
  | some (.obj _) => pure (setInner view "session" key page.toJson)
  | _ => .error "run view has no session object"

/-- The page in a raw snapshot. -/
def apply (page : RunPage) (view : Json) : Except String Json :=
  match page.kind with
  | .steps => do
      let view ← setMember view "graphSteps"
        ((page.receipt.member? "graphSteps").getD (.arr page.items))
      let view ← setMember view "stepStart" (.num (.ofNat page.start))
      let view ← setMember view "stepTotal" (.num (.ofNat page.total))
      let view ← setMember view "graphCursor"
        ((page.receipt.member? "graphCursor").getD (.num (.ofNat 0)))
      let view ← setMember view "takenTransitions"
        ((page.receipt.member? "takenTransitions").getD (.arr []))
      pure (setInner view "state" "steps" (.arr page.items))
  | .trace | .traceAtStep => setMember view "tracePage" page.toJson
  | .sessionEntries => page.setSession view "entryPage"
  | .sessionEvents => do
      let view ← page.setSession view "eventPage"
      pure (setInner view "session" "replayCheckpoint"
        ((page.receipt.member? "replayCheckpoint").getD .null))
  | .settings => page.setList view "settingsScopes" "settingsStart" "settingsTotal"
  | .followUps => do
      let view ←
        match view.member? "followUpQueue" with
        | some (.obj _) => pure view
        | _ => setMember view "followUpQueue" (.obj [])
      let view := setInner view "followUpQueue" "items" (.arr page.items)
      let view ← setMember view "followUpStart" (.num (.ofNat page.start))
      setMember view "followUpTotal" (.num (.ofNat page.total))
  | .updates => do
      let view ← page.setList view "updates" "updateStart" "updateTotal"
      pure (setInner view "state" "updates" (.arr page.items))

end RunPage

/-- A raw snapshot with a page in it. -/
def RawView.withPage (raw : RawView) (value : Json) : RawView :=
  { raw with generation := wrappingSucc raw.generation, value := value }

/-- `merge_page`. -/
def mergePage (state : Shared) (receipt : Json) : Except String Shared := do
  let page ← runPage? receipt
  if state.pageRequests.get? (page.runId, page.kind) ≠ some page.cursor then pure state
  else
    match state.rawViews.get? page.runId with
    | none => pure state
    | some raw =>
        if raw.viewRevision ≠ page.revision then pure state
        else do
          let value ← page.apply raw.value
          pure { state with rawViews := state.rawViews.put page.runId (raw.withPage value) }

/-- `handle_server_message`. An error ends the connection. -/
def handleServerMessage (sha256 : Bytes → Vector UInt8 32) (state : Shared) :
    ServerMessage → Except String Shared
  | .hello => pure state
  | .runSnapshot none _ _ => pure state
  | .runSnapshot (some runId) revision payload =>
      pure (storeSnapshot state runId (revision.getD 0) payload)
  | .response outcome receipt =>
      if outcome ∈ ["unavailable", "rejected", "notFound"] then pure state
      else
        match receipt with
        | none => pure state
        | some receipt =>
            match textMember receipt "schema" with
            | some "pi-workflows.run-page.v1" =>
                if outcome = "accepted" then mergePage state receipt else pure state
            | some "pi-workflows.content-chunk.v1" => mergeContent sha256 state receipt
            | _ => pure state

/-! ## Runs -/

/-- A call of either thread. -/
inductive ClientAction where
  | message (message : ServerMessage)
  | watch (runId : String)
  | requestPage (runId : String) (kind : PageKind) (cursor : Nat)
  | requestArtifact (runId path : String)
  | view (runId : String)

namespace RemoteRuns

variable {α : Type} (sha256 : Bytes → Vector UInt8 32) (decoder : ViewDecoder α)

def act (runs : RemoteRuns α) : ClientAction → RemoteRuns α
  | .message message =>
      match handleServerMessage sha256 runs.shared message with
      | .ok shared => { runs with shared := shared }
      | .error _ => runs
  | .watch runId => runs.watch runId
  | .requestPage runId kind cursor => runs.requestPage runId kind cursor
  | .requestArtifact runId path => runs.requestArtifact runId path
  | .view runId => (runs.view sha256 decoder runId).2

def acts (runs : RemoteRuns α) (actions : List ClientAction) : RemoteRuns α :=
  actions.foldl (act sha256 decoder) runs

end RemoteRuns

end PiWorkflows.Tui
