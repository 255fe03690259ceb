import PiWorkflows.State.Blobs
import PiWorkflows.State.Schema

/-!
# Commands of clients (`server/state.ts`)

A client sends a request under two identities: the id of the transport attempt,
and the key of the command, which is the client's own. `executeCommand` answers a
request from the receipt under either identity, and only if there is none runs
the operation and stores its receipt, in the transaction of the operation. Since
it looks for a receipt once before the transaction, other calls may come between
the two looks; here a call that was not answered at the first look is pending
until its transaction runs.

The operation is any function of the tables, with the blobs, that gives a result
or throws. It cannot touch the receipts, which no other code writes. A receipt
holds the contents of its blobs (`insertBlob` never changes one), and its columns
that no answer reads are left out. -/

namespace PiWorkflows

open Fallible

/-! ## Requests and responses (`client/protocol.ts`) -/

def CLIENT_PROTOCOL_SCHEMA : String := "pi-workflows.client.v1"

/-- `ClientRequest`, without the two constant fields. -/
structure ClientRequest where
  requestId : String
  clientId : String
  operation : String
  idempotencyKey : String
  runId : Option String := none
  expectedRevision : Option Int := none
  payload : Json

/-- `ClientOutcome`. -/
inductive ClientOutcome where
  | accepted
  | adopted
  | rejected
  | conflict
  | notFound
  | claimLost
  | unavailable
  deriving DecidableEq, Repr

/-- What an operation returns: a response but for its schema, type and request id. -/
structure CommandResult where
  outcome : ClientOutcome
  revision : Option Int := none
  receipt : Option Json := none
  error : Option String := none
  deriving DecidableEq

/-- `ClientResponse`. -/
structure ClientResponse extends CommandResult where
  requestId : String
  deriving DecidableEq

/-- The operations whose payload carries evidence of the session's authority. -/
def sessionResponseOperations : List String :=
  ["interaction.submit", "interaction.assistant", "interaction.update", "checkpoint.answer",
    "decision.answer", "run.restart"]

/-- The payload without the evidence, which reconnecting changes. -/
def fingerprintPayload (request : ClientRequest) : Json :=
  if request.operation ∈ sessionResponseOperations then
    match request.payload with
    | .obj members => .obj (Assoc.eraseKey "coordinatorEpoch" members)
    | payload => payload
  else request.payload

/-- `{ ...request, requestId: undefined, payload }`. -/
def fingerprintJson (request : ClientRequest) : Json :=
  .obj ([("schema", .str CLIENT_PROTOCOL_SCHEMA), ("type", .str "request"),
    ("clientId", .str request.clientId), ("operation", .str request.operation),
    ("idempotencyKey", .str request.idempotencyKey)] ++
    (request.runId.map fun runId => ("runId", Json.str runId)).toList ++
    (request.expectedRevision.map fun revision =>
      ("expectedRevision", Json.num (.ofInt revision))).toList ++
    [("payload", fingerprintPayload request)])

/-- `clientRequestFingerprint`. -/
def clientRequestFingerprint (sha256 : String → String) (request : ClientRequest) : String :=
  sha256 (canonicalJson (fingerprintJson request))

/-! ## Receipts -/

/-- A row of `server_commands`, under its request id. -/
structure CommandRow where
  clientId : String
  idempotencyKey : String
  requestFingerprint : String
  outcome : ClientOutcome
  revision : Option Int
  receipt : Option Json
  error : Option String

/-- The tables an operation works on, and the receipts. -/
structure ServerState where
  db : Db
  blobs : StateDatabase String
  commands : Table String CommandRow

/-- The values `CHECK (operation IN …)` admits. -/
def recordedOperations : List String :=
  ["run.start", "run.pause", "run.resume", "run.cancel", "run.status", "run.list",
    "checkpoint.answer", "decision.answer", "interaction.submit", "interaction.update",
    "workflowMessage.reportBranch", "workflowTurn.report", "sessionView.clearTerminal",
    "run.restart", "run.changeSettings", "followUp.queue", "followUp.remove", "session.record",
    "channel.reload", "channel.recover", "resourceManager.list", "resourceManager.get",
    "resourceManager.apply", "resourceManager.reconcile", "resourceManager.delete",
    "server.status", "server.stop", "state.backup", "state.prune"]

/-- `conflictResponse`. -/
def conflictResponse (requestId error : String) : ClientResponse :=
  { outcome := .conflict, error := some error, requestId }

/-- `commandResponse`. -/
def commandResponse (requestId : String) (row : CommandRow) : ClientResponse :=
  { outcome := row.outcome, revision := row.revision, receipt := row.receipt, error := row.error
    requestId }

/-- A receipt that is given again says `adopted` for `accepted`. -/
def adoptedOutcome (outcome : ClientOutcome) : ClientOutcome :=
  if outcome = .accepted ∨ outcome = .adopted then .adopted else outcome

/-- The row under a client's key. -/
def commandForKey (commands : Table String CommandRow) (clientId idempotencyKey : String) :
    Option (String × CommandRow) :=
  commands.find? fun _ row => row.clientId = clientId ∧ row.idempotencyKey = idempotencyKey

section

variable (sha256 : String → String) (state : ServerState) (request : ClientRequest)

/-- `readCommand`. -/
def readCommand : Option ClientResponse :=
  (state.commands.get? request.requestId).map fun row =>
    if row.requestFingerprint = clientRequestFingerprint sha256 request then
      commandResponse request.requestId row
    else conflictResponse request.requestId "Request ID was reused with another payload"

/-- `adoptCommand`. -/
def adoptCommand : Option ClientResponse :=
  match readCommand sha256 state request with
  | some existing => some { existing with outcome := adoptedOutcome existing.outcome }
  | none =>
      (commandForKey state.commands request.clientId request.idempotencyKey).map fun (id, row) =>
        if row.requestFingerprint = clientRequestFingerprint sha256 request then
          let adopted := commandResponse id row
          { adopted with requestId := request.requestId, outcome := adoptedOutcome adopted.outcome }
        else conflictResponse request.requestId "Idempotency key was reused with another payload"

/-- The row the receipt of a result is stored in. -/
def receiptRow (result : CommandResult) : CommandRow where
  clientId := request.clientId
  idempotencyKey := request.idempotencyKey
  requestFingerprint := clientRequestFingerprint sha256 request
  outcome := result.outcome
  revision := result.revision
  receipt := result.receipt.map storedJson
  error := result.error

/-- `INSERT INTO server_commands`, with what the schema asks of the row. -/
def insertCommand (serverEpoch : Int) (result : CommandResult) : Except String ServerState := do
  require (request.operation ∈ recordedOperations) "CHECK constraint failed: operation"
  require (result.revision.all (fun revision => decide (0 ≤ revision)) = true)
    "CHECK constraint failed: accepted_revision"
  require (0 < serverEpoch) "CHECK constraint failed: server_epoch"
  require (commandForKey state.commands request.clientId request.idempotencyKey = none)
    "UNIQUE constraint failed: server_commands.client_id, server_commands.idempotency_key"
  require (request.runId.all (fun runId => (state.db.runs.get? runId).isSome) = true)
    "FOREIGN KEY constraint failed"
  let commands ← orThrow "UNIQUE constraint failed: server_commands.request_id"
    (state.commands.insert? request.requestId (receiptRow sha256 request result))
  .ok { state with commands }

/-- An operation reads and writes the tables, and throws or gives a result. -/
abbrev Operation := Db → StateDatabase String → Except String (CommandResult × Db × StateDatabase String)

/-- The transaction behind the second look: the operation and its receipt. -/
def runCommand (serverEpoch now : Int) (operation : Operation) :
    Except String (ClientResponse × ServerState) := do
  let (result, db, blobs) ← operation state.db state.blobs
  let blobs ← blobs.putOptionalJson sha256 result.receipt now
  let blobs ← blobs.putOptionalText sha256 result.error now
  let state ← insertCommand sha256 { state with db, blobs } request serverEpoch result
  .ok ({ result with requestId := request.requestId }, state)

end

/-! ## Calls in flight -/

/-- A call of `executeCommand`. -/
structure CommandCall where
  request : ClientRequest
  serverEpoch : Int
  operation : Operation

/-- How a call ended: with the receipt that was found, or with what the run of
the operation gave. -/
inductive CommandEnd where
  | found (response : ClientResponse)
  | ran (result : Except String ClientResponse)

/-- The state, the calls past their first look, and what the calls came to, in order. -/
structure CommandServer where
  state : ServerState
  pending : List CommandCall := []
  log : List (ClientRequest × CommandEnd) := []

inductive CommandAction where
  | start (call : CommandCall)
  | finish (index : Nat) (now : Int)

namespace CommandServer

variable (sha256 : String → String) (s : CommandServer)

/-- The first look. -/
def start (call : CommandCall) : CommandServer :=
  match adoptCommand sha256 s.state call.request with
  | some existing => { s with log := s.log ++ [(call.request, .found existing)] }
  | none => { s with pending := s.pending ++ [call] }

/-- The transaction of a call. What throws is rolled back. -/
def finishCall (call : CommandCall) (now : Int) : CommandServer :=
  match adoptCommand sha256 s.state call.request with
  | some idempotent => { s with log := s.log ++ [(call.request, .found idempotent)] }
  | none =>
      match runCommand sha256 s.state call.request call.serverEpoch now call.operation with
      | .ok (response, state) =>
          { s with state, log := s.log ++ [(call.request, .ran (.ok response))] }
      | .error message => { s with log := s.log ++ [(call.request, .ran (.error message))] }

/-- One step of any call. -/
def act : CommandAction → CommandServer
  | .start call => s.start sha256 call
  | .finish index now =>
      match s.pending[index]? with
      | some call => finishCall sha256 { s with pending := s.pending.eraseIdx index } call now
      | none => s

end CommandServer

/-- Calls of any clients in any interleaving. -/
def commandRun (sha256 : String → String) (s : CommandServer) (actions : List CommandAction) :
    CommandServer :=
  actions.foldl (CommandServer.act sha256) s

end PiWorkflows
