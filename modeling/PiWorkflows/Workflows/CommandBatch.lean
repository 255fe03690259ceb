import PiWorkflows.Builtins.ChangeVerification
import PiWorkflows.Lib.Fallible
import PiWorkflows.Workflows.Shell

/-!
# Running a batch of commands (`workflows/command-batch.ts`)

Several slots take the items of a batch one after another. They share the next index,
the counter and the results, and a slot runs without a break from one `await` to the
next: `enterLoop` is what it does up to the start of a command or its end, and
`settleItem` what it does when its command has ended. Between these anything may
happen, so a run takes the steps of the slots, and the abort, in any order.

The results are those of the verification, which reads them. How a command ends is
given: `runShellAction` resolves, or it throws one of the errors of `shell.ts`.
`log` records what happened and is read by no step.
-/

namespace PiWorkflows.Batch

open Fallible ChangeVerification

def MAX_COMMAND_BATCH_ITEMS : Nat := 64
def MAX_COMMAND_BATCH_CONCURRENCY : Nat := 8
def MAX_COMMAND_BATCH_TIMEOUT_MS : Nat := 60 * 60000
def MAX_COMMAND_BATCH_OUTPUT_CHARS : Nat := 1000000
def MAX_ERROR_CHARS : Nat := 2000

/-- `CommandBatchItem`. -/
structure CommandBatchItem where
  id : String
  command : String
  args : List String
  cwd : String
  timeoutMs : Int
  maxOutputChars : Int
  deriving DecidableEq

/-- `CommandBatchRequest`. -/
structure CommandBatchRequest where
  items : List CommandBatchItem
  maxConcurrency : Int

/-! ## Checks -/

/-- `positiveInteger`. -/
def positiveInteger (value : Int) (label : String) (maximum : Nat) : Except String Unit :=
  require (1 ≤ value ∧ value ≤ maximum) s!"{label} must be an integer from 1 through {maximum}"

/-- `requireString`. -/
def requireString (value label : String) : Except String Unit :=
  require (isBlank value = false) s!"{label} must be a non-empty string"

/-- `ITEM_ID_PATTERN`. -/
def isItemId (text : String) : Bool :=
  match text.toList with
  | [] => false
  | c :: rest =>
      c.isAlphanum && rest.length ≤ 63 &&
        rest.all fun c => c.isAlphanum || c ∈ ['.', '_', ':', '-']

/-- `validateItem`. -/
def validateItem (item : CommandBatchItem) (index : Nat) : Except String Unit := do
  let label := s!"command batch items[{index}]"
  requireString item.id s!"{label}.id"
  require (isItemId item.id = true) s!"{label}.id is invalid"
  requireString item.command s!"{label}.command"
  requireString item.cwd s!"{label}.cwd"
  require (item.cwd.toList.head? = some '/') s!"{label}.cwd must be absolute"
  positiveInteger item.timeoutMs s!"{label}.timeoutMs" MAX_COMMAND_BATCH_TIMEOUT_MS
  positiveInteger item.maxOutputChars s!"{label}.maxOutputChars" MAX_COMMAND_BATCH_OUTPUT_CHARS

/-- The check of the items from this index on, with the ids of those before. -/
def validateItems : List String → Nat → List CommandBatchItem → Except String Unit
  | _, _, [] => pure ()
  | ids, index, item :: rest => do
      validateItem item index
      require (item.id ∉ ids) s!"command batch item id is duplicated: {item.id}"
      validateItems (item.id :: ids) (index + 1) rest

/-- `validateCommandBatchRequest`. -/
def validateCommandBatchRequest (request : CommandBatchRequest) :
    Except String CommandBatchRequest := do
  require (request.items.length ≤ MAX_COMMAND_BATCH_ITEMS)
    s!"command batch items must contain at most {MAX_COMMAND_BATCH_ITEMS} entries"
  validateItems [] 0 request.items
  positiveInteger request.maxConcurrency "command batch maxConcurrency"
    MAX_COMMAND_BATCH_CONCURRENCY
  pure request

/-! ## One item -/

/-- `ShellActionResult`. -/
structure ShellActionResult where
  command : String
  args : List String
  cwd : String
  stdout : String
  stderr : String
  exitCode : Option Int
  signal : Option String
  durationMs : Nat

/-- How `runShellAction` ends, with the result that is attached to its error. -/
inductive ShellEnd where
  | resolved (result : ShellActionResult)
  | timeoutError (result : Option ShellActionResult)
  | cancelledError (result : Option ShellActionResult)
  | error (message : String) (result : Option ShellActionResult)

/-- `boundedError`, of the message. -/
def boundedError (message : String) : String :=
  if utf16Length message ≤ MAX_ERROR_CHARS then message
  else String.ofList (decodeUtf16 ((units message).take MAX_ERROR_CHARS)) ++ "…"

/-- `itemResult`. -/
def itemResult (id : String) (outcome : CommandBatchItemOutcome) (result : ShellActionResult)
    (error : Option String) : CommandBatchItemResult where
  id := id
  command := result.command
  args := result.args
  cwd := result.cwd
  stdout := result.stdout
  stderr := result.stderr
  exitCode := result.exitCode
  signal := result.signal
  durationMs := result.durationMs
  outcome := outcome
  stdoutTruncated := Shell.isTruncated (units result.stdout)
  stderrTruncated := Shell.isTruncated (units result.stderr)
  error := error

/-- `emptyShellResult`. -/
def emptyShellResult (item : CommandBatchItem) : ShellActionResult where
  command := item.command
  args := item.args
  cwd := item.cwd
  stdout := ""
  stderr := ""
  exitCode := none
  signal := none
  durationMs := 0

/-- `cancelledResult`. -/
def cancelledResult (item : CommandBatchItem) : CommandBatchItemResult :=
  itemResult item.id .cancelled (emptyShellResult item) (some "Command was not started")

/-- `runItem`. -/
def runItem (item : CommandBatchItem) (ended : ShellEnd) : CommandBatchItemResult :=
  match ended with
  | .resolved result => itemResult item.id .succeeded result none
  | .timeoutError result =>
      itemResult item.id .timedOut (result.getD (emptyShellResult item))
        (some (boundedError s!"Timed out after {item.timeoutMs}ms"))
  | .cancelledError result =>
      itemResult item.id .cancelled (result.getD (emptyShellResult item))
        (some (boundedError "Workflow run was cancelled"))
  | .error message result =>
      itemResult item.id .failed (result.getD (emptyShellResult item))
        (some (boundedError message))

/-! ## The slots -/

inductive Slot where
  /-- Not called yet. -/
  | ready
  /-- Waits for its command. -/
  | running (index : Nat) (item : CommandBatchItem)
  /-- Waits for `onItemSettled`. -/
  | notifying
  | returned
  deriving DecidableEq

inductive BatchEvent where
  | started (index : Nat)
  | settled (index : Nat) (ended : ShellEnd)
  | aborted

/-- The variables of `runCommandBatch`. -/
structure BatchState where
  nextIndex : Nat
  completed : Nat
  results : List (Option CommandBatchItemResult)
  aborted : Bool
  slots : List Slot
  log : List BatchEvent

/-- What the callback does before it returns or throws. -/
structure CallbackAnswer where
  aborts : Bool
  throws : Bool

/-- The signal fires. It does so once. -/
def BatchState.abort (st : BatchState) : BatchState :=
  if st.aborted then st else { st with aborted := true, log := st.log ++ [.aborted] }

def BatchState.setSlot (st : BatchState) (slot : Nat) (state : Slot) : BatchState :=
  { st with slots := st.slots.set slot state }

/-- The loop of a slot, up to the start of a command or its end. -/
def enterLoop (request : CommandBatchRequest) (slot : Nat) (st : BatchState) : BatchState :=
  if st.aborted then st.setSlot slot .returned
  else if request.items.length ≤ st.nextIndex then st.setSlot slot .returned
  else
    let index := st.nextIndex
    let st := { st with nextIndex := index + 1 }
    -- Nothing has run since the loop was entered.
    if st.aborted then st.setSlot slot .returned
    else
      match request.items[index]? with
      | none => st.setSlot slot .returned
      | some item =>
          { st.setSlot slot (.running index item) with log := st.log ++ [.started index] }

/-- The command of a slot has ended. A callback that throws does not make the slot wait. -/
def settleItem (request : CommandBatchRequest) (slot index : Nat) (item : CommandBatchItem)
    (ended : ShellEnd) (answer : CallbackAnswer) (st : BatchState) : BatchState :=
  let st := { st with
    results := st.results.set index (some (runItem item ended))
    completed := st.completed + 1
    log := st.log ++ [.settled index ended] }
  let st := if answer.aborts then st.abort else st
  if answer.throws then enterLoop request slot st else st.setSlot slot .notifying

/-- `Math.min(request.maxConcurrency, total)`. -/
def runnerCount (request : CommandBatchRequest) : Nat :=
  min request.maxConcurrency.toNat request.items.length

/-- The slots are called one after another. -/
def launch (request : CommandBatchRequest) (aborted : Bool) : BatchState :=
  (List.range (runnerCount request)).foldl (fun st slot => enterLoop request slot st)
    { nextIndex := 0
      completed := 0
      results := List.replicate request.items.length none
      aborted := aborted
      slots := List.replicate (runnerCount request) .ready
      log := if aborted then [.aborted] else [] }

/-- What a slot does when what it waits for has come. -/
inductive SlotStep (request : CommandBatchRequest) : BatchState → BatchState → Prop where
  | settled {st : BatchState} {slot index : Nat} {item : CommandBatchItem}
      (hslot : st.slots[slot]? = some (.running index item)) (ended : ShellEnd)
      (answer : CallbackAnswer) :
      SlotStep request st (settleItem request slot index item ended answer st)
  | notified {st : BatchState} {slot : Nat} (hslot : st.slots[slot]? = some .notifying) :
      SlotStep request st (enterLoop request slot st)

/-- The states that `runCommandBatch` comes to, for a request that was validated. -/
inductive BatchRun (request : CommandBatchRequest) : BatchState → Prop where
  | launched (aborted : Bool) : BatchRun request (launch request aborted)
  | slot {st st' : BatchState} (hrun : BatchRun request st) (hstep : SlotStep request st st') :
      BatchRun request st'
  | abort {st : BatchState} (hrun : BatchRun request st) : BatchRun request st.abort

/-- The item whose command a slot waits for. -/
def Slot.running? : Slot → Option Nat
  | .running index _ => some index
  | _ => none

def BatchState.running (st : BatchState) : List Nat :=
  st.slots.filterMap Slot.running?

def BatchEvent.started? : BatchEvent → Option Nat
  | .started index => some index
  | _ => none

def BatchEvent.settled? : BatchEvent → Option Nat
  | .settled index _ => some index
  | _ => none

/-- The items that were started, in order. -/
def startedItems (log : List BatchEvent) : List Nat :=
  log.filterMap BatchEvent.started?

/-- The items whose commands have ended, in order. -/
def settledItems (log : List BatchEvent) : List Nat :=
  log.filterMap BatchEvent.settled?

/-- `Promise.all` resolves. -/
def BatchState.Returned (st : BatchState) : Prop :=
  ∀ slot ∈ st.slots, slot = .returned

/-- The last loop: an item without a result was not started. -/
def fillResults (request : CommandBatchRequest) (st : BatchState) :
    List (Option CommandBatchItemResult) :=
  st.results.zipIdx.map fun e => e.1.or ((request.items[e.2]?).map cancelledResult)

/-- What `runCommandBatch` returns, if every item has a result. -/
def batchResult (request : CommandBatchRequest) (st : BatchState) : Option CommandBatchResult :=
  ((fillResults request st).mapM id).map fun items =>
    ⟨items, st.completed, request.items.length⟩

end PiWorkflows.Batch
