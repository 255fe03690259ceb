import PiWorkflows.Lib.Fallible

/-!
# The claim of a server (`server/state.ts`)

The one row of `workflow_server_state` says which server owns the database. Any number of servers
work on it, each with the claim that it was given and a clock of its own, so the time comes in
with a call, and so does the token that is drawn. Each call is a transaction. The times of the
row that only `serverStatus` shows are left out.
-/

namespace PiWorkflows

open Fallible

/-- The columns that are set while a server owns the database. -/
structure ServerHolder where
  serverId : String
  tokenHash : String
  pid : Nat
  processStartIdentity : String
  expiresAt : Int
  deriving DecidableEq

/-- The row of `workflow_server_state`. -/
structure ServerRow where
  epoch : Nat
  holder : Option ServerHolder

/-- `ServerClaim`. -/
structure ServerClaim where
  serverId : String
  token : String
  epoch : Nat
  pid : Nat
  processStartIdentity : String
  expiresAt : Int

/-- The options of `acquireServer`, with the token that is drawn. -/
structure AcquireServerOptions where
  serverId : String
  pid : Nat
  processStartIdentity : String
  leaseMs : Int
  token : String
  now : Int

/-- `requireLeaseMs`. -/
def requireLeaseMs (value : Int) : Except String Unit :=
  require (0 < value ∧ value ≤ 9007199254740991) "Server lease duration must be positive"

/-- The columns that name a holder. -/
def ServerHolder.identity (holder : ServerHolder) : ServerHolder :=
  { holder with expiresAt := 0 }

section

variable (sha256 : String → String)

/-- The holder that a claim is the claim of. -/
def ServerClaim.holder (claim : ServerClaim) : ServerHolder where
  serverId := claim.serverId
  tokenHash := sha256 claim.token
  pid := claim.pid
  processStartIdentity := claim.processStartIdentity
  expiresAt := claim.expiresAt

namespace ServerRow

variable (row : ServerRow)

/-- `live` of `serverStatus`. -/
def isLive (now : Int) : Bool :=
  row.holder.any fun holder => decide (now < holder.expiresAt)

/-- `acquireServer`. Nothing changes the row between its two statements. -/
def acquireServer (options : AcquireServerOptions) : Except String (ServerClaim × ServerRow) := do
  requireLeaseMs options.leaseMs
  require (row.isLive options.now = false)
    s!"A live Pi Workflows server already owns epoch {row.epoch}"
  let claim : ServerClaim :=
    { serverId := options.serverId, token := options.token, epoch := row.epoch + 1,
      pid := options.pid, processStartIdentity := options.processStartIdentity,
      expiresAt := options.now + options.leaseMs }
  pure (claim, ⟨row.epoch + 1, some (claim.holder sha256)⟩)

/-- The row carries the whole identity of the claim, expired or not. -/
def names (claim : ServerClaim) : Bool :=
  decide (row.epoch = claim.epoch ∧
    row.holder.map ServerHolder.identity = some (claim.holder sha256).identity)

/-- `renewServer`. -/
def renewServer (claim : ServerClaim) (leaseMs now : Int) :
    Except String (ServerClaim × ServerRow) := do
  requireLeaseMs leaseMs
  require (row.names sha256 claim = true) "Pi Workflows server claim lost"
  let expiresAt := now + leaseMs
  pure ({ claim with expiresAt },
    { row with holder := row.holder.map fun holder => { holder with expiresAt } })

/-- `releaseServer`. -/
def releaseServer (claim : ServerClaim) : Bool × ServerRow :=
  if row.names sha256 claim then (true, { row with holder := none }) else (false, row)

end ServerRow

end

/-! ## Runs of servers -/

/-- A call of some server, with whatever claim it has. -/
inductive ServerCall where
  | acquire (options : AcquireServerOptions)
  | renew (claim : ServerClaim) (leaseMs now : Int)
  | release (claim : ServerClaim)

/-- What a call has come to. -/
inductive ServerEvent where
  | granted (claim : ServerClaim)
  | renewed (claim : ServerClaim)
  | released (claim : ServerClaim)

def ServerEvent.claim : ServerEvent → ServerClaim
  | .granted claim => claim
  | .renewed claim => claim
  | .released claim => claim

/-- The row and what has happened, in order. -/
structure ServerHistory where
  row : ServerRow
  events : List ServerEvent

namespace ServerHistory

/-- One call. A call that throws changes nothing. -/
def call (sha256 : String → String) (history : ServerHistory) : ServerCall → ServerHistory
  | .acquire options =>
      match history.row.acquireServer sha256 options with
      | .ok (claim, row) => ⟨row, history.events ++ [.granted claim]⟩
      | .error _ => history
  | .renew claim leaseMs now =>
      match history.row.renewServer sha256 claim leaseMs now with
      | .ok (claim, row) => ⟨row, history.events ++ [.renewed claim]⟩
      | .error _ => history
  | .release claim =>
      match history.row.releaseServer sha256 claim with
      | (true, row) => ⟨row, history.events ++ [.released claim]⟩
      | (false, _) => history

/-- The calls of all servers, in the order in which the database gets them. -/
def calls (sha256 : String → String) (calls : List ServerCall) : ServerHistory :=
  calls.foldl (call sha256) ⟨⟨0, none⟩, []⟩

end ServerHistory

end PiWorkflows
