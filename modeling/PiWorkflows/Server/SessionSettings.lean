import PiWorkflows.Client.Protocol
import PiWorkflows.Workflows.Queue
import PiWorkflows.Workflows.SettingsChange

/-!
# Settings changes of a session (`server/server.ts`)

`run.changeSettings` is a command whose operation takes several turns: it reads the
scope, waits for the resolver, which tries the patch on the settings it is given,
and then has the store change the settings. The receipt is stored in a transaction
of its own after the operation has ended, so a crash may fall between the two. A
repeat that comes while the operation runs waits for it.

The model starts behind `requireSessionCommand`, which a repeat passes with the
epoch of its own connection. The runs are there from the start and keep their
session and their mode; their settings definition, which the resolver loads, is a
parameter. A receipt's blobs are the contents of its columns.
-/

namespace PiWorkflows

open Fallible

/-! ## Reading a request -/

/-- `payload.key`, of a payload that is an object. -/
def payloadMember (request : ClientRequest) (key : String) : Option Json :=
  match request.payload with
  | .obj members => members.lookup key
  | _ => none

/-- The check of `requireRecord`. -/
def hasRecordPayload (request : ClientRequest) : Bool :=
  match request.payload with
  | .obj _ => true
  | _ => false

/-- `requireRunId`. -/
def requireRunId (request : ClientRequest) : Except String String :=
  orThrow s!"{request.operation} requires runId" request.runId

/-- `requireString` of a member. -/
def requirePayloadString (request : ClientRequest) (key : String) : Except String String :=
  match payloadMember request key with
  | some (.str text) => do
      require (text ≠ "") s!"{key} must be text"
      pure text
  | _ => .error s!"{key} must be text"

/-- `requireNonNegativeInteger`. -/
def requireNonNegativeInteger (value : Json) (name : String) : Except String Nat :=
  match value with
  | .num n => do
      require (isSafeNatural n = true) s!"{name} must be a non-negative integer"
      pure (Nat.ofDigitChars 10 n.text.toList 0)
  | _ => .error s!"{name} must be a non-negative integer"

/-- `sessionRequestId`. -/
def sessionRequestId (sha256 : String → String) (request : ClientRequest) : String :=
  "session-" ++ sha256 (request.clientId ++ String.singleton (Char.ofNat 0) ++
    request.idempotencyKey)

/-! ## The operation -/

/-- The ids of `listSettingsScopes`. Their order is not read. -/
def listSettingsScopes (store : SettingsStore) (runId : String) : List String :=
  (store.scopes.rows.filter fun e => e.2.activeRunId = runId).map Prod.fst

/-- The only scope of a run. -/
def onlySettingsScope (store : SettingsStore) (runId : String) : Option String :=
  match listSettingsScopes store runId with
  | [scopeId] => some scopeId
  | _ => none

/-- The scope that a request names. -/
def requestedScopeId (request : ClientRequest) : Except String (Option String) :=
  match payloadMember request "scopeId" with
  | none => pure none
  | some _ => (requirePayloadString request "scopeId").map some

/-- What `changeSessionWorkflowSettings` has read when it asks the resolver. -/
structure OpenedChange where
  runId : String
  targetSessionId : String
  scopeId : String
  scope : SettingsScopeRow

/-- `changeSessionWorkflowSettings` up to the resolver. -/
def openSettingsChange (db : Db) (store : SettingsStore) (request : ClientRequest) :
    Except String OpenedChange := do
  let runId ← requireRunId request
  require (hasRecordPayload request = true) "run.changeSettings payload must be an object"
  let targetSessionId ← requirePayloadString request "targetSessionId"
  let run ← requireWorkflowRunRow db runId
  require (run.binding = some ⟨targetSessionId, .interactive⟩)
    "Workflow run belongs to another Pi session"
  let requested ← requestedScopeId request
  let scopeId ← orThrow
    "Specify scopeId because this workflow has more than one settings scope"
    (requested.or (onlySettingsScope store runId))
  let scope ← orThrow s!"Workflow settings scope not found for run {runId}: {scopeId}"
    ((store.scopes.get? scopeId).filter fun scope => scope.activeRunId = runId)
  pure { runId, targetSessionId, scopeId, scope }

/-- `ResolvedSettingsChange`. -/
structure ResolvedSettingsChange where
  patch : Json
  settings : Json
  paths : List SettingsPathRule

/-- `resolveSettingsChange` of the resolver process. -/
def resolveSettingsChange (definition : SettingsDefinition) (current patch : Json)
    (actorId : String) : Except String ResolvedSettingsChange := do
  let applied ← applyWorkflowSettingsPatch definition current patch
    ⟨.resource_manager, some actorId⟩ "resource-manager-request"
  pure { patch := patchJson applied.patch, settings := applied.json, paths := definition.paths }

/-- The patch of a request. One that is missing is refused like `null`. -/
def requestedPatch (request : ClientRequest) : Json :=
  (payloadMember request "patch").getD .null

/-- The definition that the server gives to the store. -/
def proposedDefinition (proposal : ResolvedSettingsChange) : SettingsDefinition where
  paths := proposal.paths
  parse := fun value => do
    require (canonicalJson value = canonicalJson proposal.settings)
      "Workflow settings proposal changed before commit"
    pure proposal.settings

/-- `expectedChangeNumber` of the store's request. -/
def expectedChangeNumber (request : ClientRequest) (scope : SettingsScopeRow) :
    Except String Nat :=
  match payloadMember request "expectedChangeNumber" with
  | none => pure scope.revision
  | some value => requireNonNegativeInteger value "expectedChangeNumber"

/-- The request to the store. -/
def sessionSettingsRequest (sha256 : String → String) (request : ClientRequest)
    (opened : OpenedChange) (proposal : ResolvedSettingsChange) (expected : Nat) :
    SettingsChangeRequest where
  runId := opened.runId
  scopeId := opened.scopeId
  requestId := sessionRequestId sha256 request
  expectedChangeNumber := some expected
  actor := { type := .session, id := some opened.targetSessionId }
  source := "pi-session"
  patch := proposal.patch

/-- What the resolver's answer comes to. -/
def proposeSettingsChange (sha256 : String → String) (definition : SettingsDefinition)
    (request : ClientRequest) (opened : OpenedChange) :
    Except String (SettingsDefinition × SettingsChangeRequest) := do
  let proposal ← resolveSettingsChange definition opened.scope.current (requestedPatch request)
    opened.targetSessionId
  let expected ← expectedChangeNumber request opened.scope
  pure (proposedDefinition proposal,
    sessionSettingsRequest sha256 request opened proposal expected)

/-- The receipt of `changeSessionWorkflowSettings`. -/
def settingsReceipt (runId scopeId : String) (changeNumber : Nat) (adopted : Bool) : Json :=
  .obj [("runId", .str runId), ("scopeId", .str scopeId),
    ("changeNumber", .num (.ofNat changeNumber)), ("adopted", .bool adopted)]

def StoreError.message : StoreError → String
  | .stale message | .failed message => message

/-- The result of the command for what the store returned. -/
def settingsCommandResult (opened : OpenedChange) :
    Except StoreError SettingsChangeResult → CommandResult
  | .ok result =>
      { outcome := .accepted
        receipt := some (settingsReceipt opened.runId opened.scopeId result.scope.changeNumber
          result.adopted) }
  | .error e => { outcome := .rejected, error := some e.message }

/-! ## The command -/

/-- Where the operation of a command stands: the resolver is asked, or the store,
whose call has an index. -/
inductive SettingsPhase where
  | resolving
  | changing (call : Nat)

/-- An entry of `maintenanceCommands`, with whether its change was applied before it. -/
structure SettingsExecution where
  request : ClientRequest
  wasApplied : Bool
  opened : OpenedChange
  phase : SettingsPhase

/-- A request and its answer, with whether its change was applied before it came. -/
structure SettingsAnswer where
  request : ClientRequest
  response : ClientResponse
  wasApplied : Bool

/-- The database, the calls of the store, the commands in flight and the answers. -/
structure SettingsServer where
  state : ServerState
  system : SettingsSystem
  inFlight : List SettingsExecution := []
  waiting : List (ClientRequest × Bool) := []
  log : List SettingsAnswer := []
  stopping : Bool := false
  epoch : Nat := 0

/-- A write to the settings other than by a session. -/
inductive SettingsWrite where
  /-- A call of `changeResourceManagerWorkflowSettings`. -/
  | manage (managedResourceUid requestKey : String) (definition : SettingsDefinition)
      (request : SettingsChangeRequest)
  | resume (call : Nat) (changeId : String) (now : Int)
  | ensureScope (runId mountPath : String) (invocation : Nat) (settings : Json) (now : Int)
  | runStatus (runId : String) (status : StoredRunStatus)

/-- `resourceManagerRequestKey`. -/
def resourceManagerRequestKey (managedResourceUid requestKey : String) : String :=
  "resourceManager:" ++ managedResourceUid ++ ":" ++ requestKey

def SettingsWrite.action : SettingsWrite → SettingsAction
  | .manage uid key definition request =>
      .change definition { request with
        requestId := resourceManagerRequestKey uid key
        actor := { type := .resource_manager, id := some uid }
        source := "resource-manager-request" }
  | .resume call changeId now => .resume call changeId now
  | .ensureScope runId mountPath invocation settings now =>
      .ensureScope runId mountPath invocation settings now
  | .runStatus runId status => .runStatus runId status

inductive SettingsServerAction where
  | receive (request : ClientRequest)
  | resolve (index : Nat)
  | finish (index : Nat)
  | write (write : SettingsWrite)
  | stop
  | crash

/-- The lookup of `changeResourceManagerWorkflowSettings`. -/
def priorChangeNumber (store : SettingsStore) (scopeId requestId : String) : Option Nat :=
  (settingsChangeRow store scopeId requestId).map SettingsChangeRow.changeNumber

/-- Two requests with one entry in `maintenanceCommands`. -/
def sameCommand (a b : ClientRequest) : Bool :=
  a.clientId = b.clientId ∧ a.idempotencyKey = b.idempotencyKey

def rejectedResponse (request : ClientRequest) (message : String) : ClientResponse :=
  { outcome := .rejected, error := some message, requestId := request.requestId }

def unavailableResponse (request : ClientRequest) (message : String) : ClientResponse :=
  { outcome := .unavailable, error := some message, requestId := request.requestId }

section

variable (sha256 : String → String)

/-- `executeCommand` of a result that is there. -/
def storeResult (state : ServerState) (request : ClientRequest) (serverEpoch : Int)
    (result : CommandResult) : Except String (ClientResponse × ServerState) :=
  match adoptCommand sha256 state request with
  | some existing => .ok (existing, state)
  | none => do
      let state ← insertCommand sha256 state request serverEpoch result
      pure ({ result with requestId := request.requestId }, state)

namespace SettingsServer

variable (s : SettingsServer)

/-- The change of a request is in the history. -/
def isApplied (request : ClientRequest) : Bool :=
  s.system.store.changes.any fun change => change.requestId = sessionRequestId sha256 request

def answer (request : ClientRequest) (wasApplied : Bool) (response : ClientResponse) :
    SettingsServer :=
  { s with log := s.log ++ [⟨request, response, wasApplied⟩] }

/-- The answers of those that wait for a command. -/
def answerWaiting (command : ClientRequest) (respond : ClientRequest → ClientResponse) :
    SettingsServer :=
  { s with
    waiting := s.waiting.filter fun e => !sameCommand command e.1
    log := s.log ++ (s.waiting.filter fun e => sameCommand command e.1).map fun e =>
      ⟨e.1, respond e.1, e.2⟩ }

/-- The end of a command: its receipt, its answer and those of who waits for it. -/
def complete (request : ClientRequest) (wasApplied : Bool) (result : CommandResult) :
    SettingsServer :=
  match storeResult sha256 s.state request (s.epoch + 1) result with
  | .ok (response, state) =>
      answerWaiting (answer { s with state } request wasApplied response) request fun waiting =>
        (adoptCommand sha256 state waiting).getD (unavailableResponse waiting
          "Workflow maintenance command did not complete durably")
  | .error message =>
      answerWaiting (answer s request wasApplied (rejectedResponse request message)) request
        fun waiting => rejectedResponse waiting message

/-- `executeMaintenanceCommand` up to where the operation waits. -/
def receive (request : ClientRequest) : SettingsServer :=
  let wasApplied := s.isApplied sha256 request
  match adoptCommand sha256 s.state request with
  | some adopted => s.answer request wasApplied adopted
  | none =>
      if s.stopping then
        s.answer request wasApplied (unavailableResponse request "Workflow server is stopping")
      else if s.inFlight.any fun execution => sameCommand execution.request request then
        { s with waiting := s.waiting ++ [(request, wasApplied)] }
      else
        match openSettingsChange s.state.db s.system.store request with
        | .ok opened =>
            { s with inFlight := s.inFlight ++ [⟨request, wasApplied, opened, .resolving⟩] }
        | .error message =>
            s.complete sha256 request wasApplied { outcome := .rejected, error := some message }

/-- The resolver has answered. -/
def resolve (settingsOf : String → String → SettingsDefinition) (index : Nat)
    (execution : SettingsExecution) : SettingsServer :=
  let opened := execution.opened
  match proposeSettingsChange sha256 (settingsOf opened.runId opened.scope.mountPath)
      execution.request opened with
  | .ok (definition, request) =>
      { s with
        system := settingsStep sha256 s.system (.change definition request)
        inFlight := s.inFlight.set index
          { execution with phase := .changing s.system.calls.length } }
  | .error message =>
      complete sha256 { s with inFlight := s.inFlight.eraseIdx index } execution.request
        execution.wasApplied { outcome := .rejected, error := some message }

/-- One step. -/
def act (settingsOf : String → String → SettingsDefinition) :
    SettingsServerAction → SettingsServer
  | .receive request =>
      if request.operation = "run.changeSettings" then s.receive sha256 request else s
  | .resolve index =>
      match s.inFlight[index]? with
      | some execution =>
          match execution.phase with
          | .resolving => s.resolve sha256 settingsOf index execution
          | .changing _ => s
      | none => s
  | .finish index =>
      match s.inFlight[index]? with
      | some ⟨request, wasApplied, opened, .changing call⟩ =>
          match s.system.calls[call]? with
          | some ⟨_, _, .returned result⟩ =>
              complete sha256 { s with inFlight := s.inFlight.eraseIdx index } request wasApplied
                (settingsCommandResult opened result)
          | _ => s
      | _ => s
  | .write write => { s with system := settingsStep sha256 s.system write.action }
  | .stop => { s with stopping := true }
  | .crash =>
      { s with
        system := { s.system with calls := [] }
        inFlight := [], waiting := [], stopping := false, epoch := s.epoch + 1 }

end SettingsServer

end

end PiWorkflows
