import PiWorkflows.Tui.Client

/-!
# What the terminal asks the server for (`tui/src/client.rs`)

The worker compares what is wanted with what it has sent on its connection and sends
the difference. A key that has been sent is not sent again until it is no longer
wanted. The keys are forgotten with the connection, the wishes are not.

Besides the client, a state of the connection has the requests without a response
(`outstanding`) and what happened to the runs (`log`); the client reads neither. The
keys of a map come in some order. The pages of the list of runs are left out.
-/

namespace PiWorkflows.Tui

/-- What a request asks for. -/
inductive Operation where
  | watchRuns
  | watchRun (runId : String)
  | unwatchRun (runId : String)
  | page (runId : String) (kind : PageKind) (cursor : Nat)
  | content (runId path : String) (offset : Nat)
  deriving DecidableEq

/-- `ClientRequest`. -/
structure Request where
  id : Nat
  operation : Operation
  deriving DecidableEq

def runKey (runId : String) : String :=
  "run:" ++ runId

def pageKey (runId : String) (kind : PageKind) (cursor revision : Nat) : String :=
  "page:" ++ runId ++ ":" ++ pageName kind ++ ":" ++ cursor.repr ++ ":" ++ revision.repr

def contentRequestKey (runId path : String) (offset : Nat) : String :=
  "content:" ++ runId ++ ":" ++ path ++ ":" ++ offset.repr

/-- `key.starts_with(start)`. -/
def startsWith (start key : String) : Bool :=
  start.toList.isPrefixOf key.toList

/-- `key.strip_prefix("run:")`. -/
def runOfKey (key : String) : Option String :=
  ("run:".toList.isPrefixOf? key.toList).map String.ofList

/-- The variables of a pass: the keys sent, the last id, and the requests to send. -/
structure Pass where
  sent : List String := []
  counter : Nat := 0
  requests : List Request := []

namespace Pass

/-- `requests.push(request(counter, …))`. -/
def push (pass : Pass) (operation : Operation) : Pass :=
  let id := wrappingSucc pass.counter
  { pass with counter := id, requests := pass.requests ++ [⟨id, operation⟩] }

/-- `if sent.insert(key) { requests.push(…) }`. -/
def ask (pass : Pass) (key : String) (operation : Operation) : Pass :=
  if key ∈ pass.sent then pass
  else ({ pass with sent := key :: pass.sent } : Pass).push operation

/-- `sent.retain(|key| !key.starts_with(start) || desired.contains(key))`. -/
def retain (pass : Pass) (start : String) (desired : List String) : Pass :=
  { pass with sent := pass.sent.filter fun key => !startsWith start key || decide (key ∈ desired) }

/-- The end of a subscription. -/
def unwatch (pass : Pass) (runId : String) : Pass :=
  let pass := pass.push (.unwatchRun runId)
  { pass with sent := pass.sent.filter (· ≠ runKey runId) }

def unwatchOthers (pass : Pass) (watched : List String) : Pass :=
  ((pass.sent.filterMap runOfKey).filter (· ∉ watched)).foldl unwatch pass

def watchRuns (pass : Pass) (watched : List String) : Pass :=
  watched.foldl (fun pass runId => pass.ask (runKey runId) (.watchRun runId)) pass

/-- The key of a wish for a page, with the revision of the snapshot that is held. -/
def keyOfPage (state : Shared) (e : (String × PageKind) × Nat) : String :=
  let revision := ((state.rawViews.get? e.1.1).map fun raw => raw.viewRevision).getD 0
  pageKey e.1.1 e.1.2 e.2 revision

def askPages (pass : Pass) (state : Shared) : Pass :=
  state.pageRequests.rows.foldl
    (fun pass e => pass.ask (keyOfPage state e) (.page e.1.1 e.1.2 e.2))
    (pass.retain "page:" (state.pageRequests.rows.map (keyOfPage state)))

/-- The key of a wish for the rest of a content. -/
def keyOfContent (e : (String × String) × Nat) : String :=
  contentRequestKey e.1.1 e.1.2 e.2

def askContents (pass : Pass) (state : Shared) : Pass :=
  state.contentRequests.rows.foldl
    (fun pass e => pass.ask (keyOfContent e) (.content e.1.1 e.1.2 e.2))
    (pass.retain "content:" (state.contentRequests.rows.map keyOfContent))

end Pass

/-- `reconcile_requests`. -/
def reconcileRequests (state : Shared) (sent : List String) (counter : Nat) : Pass :=
  let pass : Pass := { sent := sent, counter := counter }
  let pass := pass.ask "runs" .watchRuns
  let pass := pass.unwatchOthers state.watched
  let pass := pass.watchRuns state.watched
  let pass := pass.askPages state
  pass.askContents state

/-! ## The client on its connection -/

/-- What happens to the subscription of a run. -/
inductive LinkEvent where
  | connected
  | watchSent (runId : String)
  | discarded (runId : String)
  | snapshotCame (runId : String)
  deriving DecidableEq

structure Link (α : Type) where
  runs : RemoteRuns α := {}
  sent : List String := []
  counter : Nat := 0
  outstanding : List Request := []
  log : List LinkEvent := []

/-- A response of the server: a chunk of a content, or anything else. -/
inductive Answer where
  | chunk (record : ContentRecord)
  | other (outcome : String) (receipt : Option Json)

/-- The message of a response. A chunk is the one that the request asks for. -/
def Answer.message (operation : Operation) : Answer → ServerMessage
  | .other outcome receipt => .response outcome receipt
  | .chunk record =>
      match operation with
      | .content runId _ offset =>
          .response "accepted"
            (some (normalizeJson (ViewContents.contentChunk runId record offset)))
      | _ => .response "accepted" none

/-- A pass of the worker, a call of the user or an event of the server, the response to a
request, or a new connection. -/
inductive LinkAction where
  | pass
  | call (action : ClientAction)
  | respond (index : Nat) (answer : Answer)
  | reconnect

namespace Link

variable {α : Type} (sha256 : Bytes → Vector UInt8 32) (decoder : ViewDecoder α)

/-- A new connection: nothing has been sent on it. -/
def reconnect (link : Link α) : Link α :=
  { link with sent := [], counter := 0, outstanding := [], log := link.log ++ [.connected] }

def watchEvent : Request → Option LinkEvent
  | ⟨_, .watchRun runId⟩ => some (.watchSent runId)
  | _ => none

def pass (link : Link α) : Link α :=
  let done := reconcileRequests link.runs.shared link.sent link.counter
  { link with
    sent := done.sent
    counter := done.counter
    outstanding := link.outstanding ++ done.requests
    log := link.log ++ done.requests.filterMap watchEvent }

/-- What a call says about subscriptions. -/
def callEvents (link : Link α) : ClientAction → List LinkEvent
  | .watch runId => (link.runs.shared.watched.filter (· ≠ runId)).map .discarded
  | .message (.runSnapshot (some runId) _ _) => [.snapshotCame runId]
  | _ => []

def call (link : Link α) (action : ClientAction) : Link α :=
  { link with
    runs := link.runs.act sha256 decoder action
    log := link.log ++ link.callEvents action }

/-- A response ends a request. One that cannot be read ends the connection. -/
def respond (link : Link α) (index : Nat) (answer : Answer) : Link α :=
  match link.outstanding[index]? with
  | none => link
  | some request =>
      match handleServerMessage sha256 link.runs.shared (answer.message request.operation) with
      | .error _ => link.reconnect
      | .ok shared =>
          { link with
            runs := { link.runs with shared := shared }
            outstanding := link.outstanding.eraseIdx index }

def act (link : Link α) : LinkAction → Link α
  | .pass => link.pass
  | .call action => link.call sha256 decoder action
  | .respond index answer => link.respond sha256 index answer
  | .reconnect => link.reconnect

def acts (link : Link α) (actions : List LinkAction) : Link α :=
  actions.foldl (act sha256 decoder) link

end Link

end PiWorkflows.Tui
