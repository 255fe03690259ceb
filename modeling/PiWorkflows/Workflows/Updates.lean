import PiWorkflows.Js.Json
import PiWorkflows.Lib.Current
import PiWorkflows.Lib.Table

/-!
# Current updates of a run (`workflows/updates.ts`, `workflows/store.ts`)

A node publishes updates under a type and a key, and a reader wants the newest
one of each. The run state gets it by a fold over all updates of the run; the
views read it from the tables by a query that ranks the updates of each type and
key, whole, by a range, or the tail of one kind.
-/

namespace PiWorkflows

/-- A row of `workflow_updates`, by update id. -/
structure UpdateRow where
  attemptId : String
  runRevision : Nat
  updateType : String
  updateKey : String
  data : Json
  recordedAt : Int

/-- What the updates read of a row of `node_attempts`, by attempt id. -/
structure UpdateAttemptRow where
  runId : String
  nodeId : String

/-- A row that the queries of one run select. -/
structure SelectedUpdate where
  updateId : String
  runRevision : Nat
  nodeId : String
  attemptId : String
  updateType : String
  updateKey : String
  data : Json
  recordedAt : Int

/-- `WorkflowUpdateRecord`. -/
structure WorkflowUpdateRecord where
  updateId : String
  seq : Nat
  at_ : String
  runId : String
  nodeId : String
  attemptId : String
  type : String
  key : String
  data : Json

/-- The tables that hold the updates of all runs. -/
structure UpdateTables where
  attempts : Table String UpdateAttemptRow
  updates : Table String UpdateRow

/-- `FROM workflow_updates u JOIN node_attempts a … WHERE a.run_id = ?`. -/
def UpdateTables.joined (t : UpdateTables) (runId : String) : List SelectedUpdate :=
  t.updates.rows.filterMap fun (updateId, u) =>
    match t.attempts.get? u.attemptId with
    | some a =>
        if a.runId = runId then
          some { updateId, runRevision := u.runRevision, nodeId := a.nodeId
                 attemptId := u.attemptId, updateType := u.updateType, updateKey := u.updateKey
                 data := u.data, recordedAt := u.recordedAt }
        else none
    | none => none

/-- Published updates. Each is published at a new revision of its run. -/
structure PublishedUpdates extends UpdateTables where
  distinct : ∀ runId, ((toUpdateTables.joined runId).map SelectedUpdate.runRevision).Nodup

/-- The insertion of `publishUpdate`, whose revision is the one behind the run's revision. -/
def UpdateTables.publish (t : UpdateTables) (updateId : String) (row : UpdateRow) :
    Option UpdateTables :=
  (t.updates.insert? updateId row).map fun updates => { t with updates }

/-- The record that a row is read as, for a `toISOString` of dates. -/
def SelectedUpdate.record (toISOString : Int → String) (runId : String) (row : SelectedUpdate) :
    WorkflowUpdateRecord where
  updateId := row.updateId
  seq := row.runRevision
  at_ := toISOString row.recordedAt
  runId := runId
  nodeId := row.nodeId
  attemptId := row.attemptId
  type := row.updateType
  key := row.updateKey
  data := row.data

namespace UpdateTables

variable (toISOString : Int → String) (t : UpdateTables) (runId : String)

end UpdateTables

end PiWorkflows
