import PiWorkflows.Workflows.Projection

/-!
# Steps as a run view reads them (`workflows/store.ts`)

The state of a run can be built from all its steps, or, for a view, from the last
step of each node. Both reads select rows of `run_steps` in the order of their
step indexes; the first checks on the way that no index is missing.
-/

namespace PiWorkflows

open Fallible

/-- The rows of `run_steps` of one run, by `step_index`, each joined with its attempt. -/
structure RunSteps where
  rows : List (Nat × StepRow)
  ordered : rows.Pairwise fun a b => a.1 < b.1

section

variable (toISOString : Int → String) (runId : String)

/-- `mapStepRows`. -/
def mapStepRows (rows : List (Nat × StepRow)) (expectedStart : Option Nat) :
    Except String (List StepRecord) :=
  rows.zipIdx.mapM fun (row, index) => do
    require (∀ start ∈ expectedStart, row.1 = start + index)
      s!"Workflow run step sequence has a gap: {runId}"
    readStep toISOString row.2

/-- `readSteps`. -/
def readSteps (steps : RunSteps) : Except String (List StepRecord) :=
  mapStepRows toISOString runId steps.rows (some 0)

/-- `SELECT max(step_index) … WHERE step_index <= ? GROUP BY node_id`. -/
def RunSteps.latestIndexes (steps : RunSteps) (through : Option Nat) : List Nat :=
  let visible := steps.rows.filter fun row => through.all fun last => row.1 ≤ last
  (visible.map fun row => row.2.nodeId).dedup.filterMap fun nodeId =>
    ((visible.filter fun row => row.2.nodeId = nodeId).map Prod.fst).max?

/-- `readLatestSteps`. -/
def readLatestSteps (steps : RunSteps) (through : Option Nat) : Except String (List StepRecord) :=
  mapStepRows toISOString runId
    (steps.rows.filter fun row => row.1 ∈ steps.latestIndexes through) none

end

section

variable (dateParse : String → Option Int) (toISOString : Int → String) (runId : String)
  (snapshot : DefinitionSnapshot)

/-- The maps of the state that `materializeRunState` builds. -/
def materializedMaps (steps : RunSteps) : Except String Projection := do
  let steps ← readSteps toISOString runId steps
  pure (buildProjection dateParse snapshot steps)

/-- The maps of the state that `readRunView` builds. -/
def viewMaps (steps : RunSteps) : Except String Projection := do
  let steps ← readLatestSteps toISOString runId steps none
  pure (buildProjection dateParse snapshot steps)

end

end PiWorkflows
