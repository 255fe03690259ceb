import PiWorkflows.Lib.Trace
import PiWorkflows.State.Blobs

/-!
# Changes for viewers (`state/viewer.ts`)

A write that a viewer can see advances the presentation revision of its run and
keeps a patch for each target it touches. Only the latest 256 revisions are kept.
A viewer comes back with the revision it has and is given the patches since, or
is told to start over from a snapshot.

Patches live in the common table of blobs, under the digest of their text, so two
rows, of one run or of two, may share one. The blob of a row that is dropped is
dropped too if no row is left that refers to it; a blob that some other table
refers to stays, since its foreign key refuses (`heldElsewhere`). The calls run in
a transaction of the caller, and one that throws takes it down.
-/

namespace PiWorkflows

open Fallible

def VIEWER_DELTA_RETENTION : Nat := 256

/-- `ViewerTargetType`. -/
inductive ViewerTargetType where
  | summary
  | graph
  | replay
  | timeline
  | conversation
  | inspector
  deriving DecidableEq

/-- `ViewerPatchOperation`. -/
inductive ViewerPatchOperation where
  | add (path : String) (value : Json)
  | replace (path : String) (value : Json)
  | remove (path : String)
  | append (path : String) (value : List Json)

/-- `ViewerDeltaDraft`. -/
structure ViewerDeltaDraft where
  targetType : ViewerTargetType
  targetKey : Option String := none
  patch : Option (List ViewerPatchOperation) := none

/-- A row of `viewer_runs`. -/
structure ViewerRun where
  presentationRevision : Nat
  retainedFromRevision : Nat
  updatedAt : Int

/-- The primary key of `viewer_deltas`. -/
structure ViewerDeltaKey where
  runId : String
  presentationRevision : Nat
  deltaIndex : Nat
  deriving DecidableEq

/-- The other columns of `viewer_deltas`. -/
structure ViewerDelta (δ : Type) where
  targetType : ViewerTargetType
  targetKey : String
  patchHash : δ
  recordedAt : Int

/-- `ViewerDeltaRecord`. -/
structure ViewerDeltaRecord where
  key : ViewerDeltaKey
  targetType : ViewerTargetType
  targetKey : String
  patch : List ViewerPatchOperation
  recordedAt : Int

/-- `ViewerCursorResult`. -/
inductive ViewerCursorResult where
  | deltas (currentRevision retainedFromRevision : Nat) (deltas : List ViewerDeltaRecord)
  | snapshot_required (currentRevision retainedFromRevision : Nat)

structure ViewerState (δ : Type) where
  state : StateDatabase δ
  viewerRuns : Table String ViewerRun
  viewerDeltas : Table ViewerDeltaKey (ViewerDelta δ)

/-! ## Patches -/

/-- An operation as the value that is stored. -/
def ViewerPatchOperation.toJson : ViewerPatchOperation → Json
  | .add path value => .obj [("op", .str "add"), ("path", .str path), ("value", value)]
  | .replace path value => .obj [("op", .str "replace"), ("path", .str path), ("value", value)]
  | .remove path => .obj [("op", .str "remove"), ("path", .str path)]
  | .append path value => .obj [("op", .str "append"), ("path", .str path), ("value", .arr value)]

/-- The patch of a delta: the revision first, then what the draft says. -/
def deltaPatch (revision : Nat) (draft : ViewerDeltaDraft) : List ViewerPatchOperation :=
  [.replace "/presentationRevision" (.num (.ofNat revision))] ++
    (if draft.targetType = .graph then [.replace "/graphRevision" (.num (.ofNat revision))]
      else []) ++
    draft.patch.getD []

/-- `parseJson(canonicalJson(value))`. -/
def reparse (value : Json) : Except String Json :=
  orThrow "SyntaxError" (parseJson (canonicalJson value))

/-- One round of `parsePatch`. -/
def parseOperation (item : Json) : Except String ViewerPatchOperation :=
  match item.member? "op", item.member? "path" with
  | some (.str op), some (.str path) =>
      if op = "remove" then .ok (.remove path)
      else
        match item.member? "value" with
        | some value =>
            if op = "add" then (reparse value).map (.add path)
            else if op = "replace" then (reparse value).map (.replace path)
            else
              match op, value with
              | "append", .arr entries => (entries.mapM reparse).map (.append path)
              | _, _ => .error "Viewer delta patch operation is unsupported"
        | none => .error "Viewer delta patch operation is unsupported"
  | _, _ => .error "Viewer delta patch operation is invalid"

/-- `parsePatch`. -/
def parsePatch : Json → Except String (List ViewerPatchOperation)
  | .arr items => items.mapM parseOperation
  | _ => .error "Viewer delta patch is not an array"

/-! ## Writing -/

namespace ViewerState

variable {δ : Type} [DecidableEq δ] (sha256 : String → δ) (s : ViewerState δ)

/-- `initializeViewerRun`. -/
def initializeViewerRun (runId : String) (now : Int) : ViewerState δ :=
  { s with viewerRuns := (s.viewerRuns.insert? runId ⟨1, 1, now⟩).getD s.viewerRuns }

/-- One round of the loop over the drafts. -/
def insertDelta (runId : String) (revision : Nat) (now : Int) (s : ViewerState δ)
    (entry : ViewerDeltaDraft × Nat) : Except String (ViewerState δ) := do
  let (draft, index) := entry
  let patch := deltaPatch revision draft
  let (patchHash, state) ←
    s.state.putJson sha256 (.arr (patch.map ViewerPatchOperation.toJson)) now
  let viewerDeltas ← orThrow "UNIQUE constraint failed: viewer_deltas"
    (s.viewerDeltas.insert? ⟨runId, revision, index⟩
      ⟨draft.targetType, draft.targetKey.getD "", patchHash, now⟩)
  pure { s with state, viewerDeltas }

/-- Some row of `viewer_deltas` refers to the blob. -/
def refersTo (viewerDeltas : Table ViewerDeltaKey (ViewerDelta δ)) (hash : δ) : Bool :=
  viewerDeltas.any fun _ delta => decide (delta.patchHash = hash)

/-- `deleteBlob`, where a foreign key of another table may refuse. -/
def deleteBlob (heldElsewhere : δ → Bool) (s : ViewerState δ) (hash : δ) : ViewerState δ :=
  if refersTo s.viewerDeltas hash || heldElsewhere hash then s
  else { s with state := { s.state with blobs := s.state.blobs.erase hash } }

/-- The rows of revisions that are no longer kept. -/
def isStale (runId : String) (retainedFromRevision : Nat) (key : ViewerDeltaKey) : Bool :=
  decide (key.runId = runId ∧ key.presentationRevision < retainedFromRevision)

/-- `recordViewerDeltas`. -/
def recordViewerDeltas (heldElsewhere : δ → Bool) (runId : String)
    (drafts : List ViewerDeltaDraft) (now : Int) : Except String (Nat × ViewerState δ) := do
  require (drafts ≠ []) "Viewer change must name at least one bounded target"
  let row ← orThrow s!"Viewer projection does not exist for workflow run: {runId}"
    (s.viewerRuns.get? runId)
  let revision := row.presentationRevision + 1
  let s ← drafts.zipIdx.foldlM (insertDelta sha256 runId revision now) s
  let retainedFromRevision := max 1 (revision - VIEWER_DELTA_RETENTION + 1)
  let s := { s with
    viewerRuns := s.viewerRuns.update runId fun _ => ⟨revision, retainedFromRevision, now⟩ }
  let stale := s.viewerDeltas.rows.filter fun e => isStale runId retainedFromRevision e.1
  let stalePatchHashes := (stale.map fun e => e.2.patchHash).eraseDups
  let s := { s with
    viewerDeltas := s.viewerDeltas.deleteWhere fun key _ => isStale runId retainedFromRevision key }
  pure (revision, stalePatchHashes.foldl (deleteBlob heldElsewhere) s)

/-! ## Reading -/

/-- The rows `readViewerDeltas` selects, `ORDER BY presentation_revision, delta_index`. -/
def deltaRowsAfter (runId : String) (afterRevision : Nat) :
    List (ViewerDeltaKey × ViewerDelta δ) :=
  (s.viewerDeltas.rows.filter fun e =>
    decide (e.1.runId = runId ∧ afterRevision < e.1.presentationRevision)).mergeSort fun a b =>
      decide (a.1.presentationRevision < b.1.presentationRevision ∨
        a.1.presentationRevision = b.1.presentationRevision ∧ a.1.deltaIndex ≤ b.1.deltaIndex)

/-- A row with its patch. -/
def readDelta (row : ViewerDeltaKey × ViewerDelta δ) : Except String ViewerDeltaRecord := do
  let value ← s.state.readJson row.2.patchHash
  let patch ← parsePatch value
  pure ⟨row.1, row.2.targetType, row.2.targetKey, patch, row.2.recordedAt⟩

/-- `readViewerDeltas`. -/
def readViewerDeltas (runId : String) (afterRevision : Int) : Except String ViewerCursorResult := do
  require (0 ≤ afterRevision) "Viewer cursor must be a non-negative integer"
  let after := afterRevision.toNat
  let row ← orThrow s!"Viewer projection does not exist for workflow run: {runId}"
    (s.viewerRuns.get? runId)
  let snapshot := ViewerCursorResult.snapshot_required row.presentationRevision
    row.retainedFromRevision
  if after = 0 ∨ row.presentationRevision < after ∨ after < row.retainedFromRevision - 1 then
    pure snapshot
  else do
    let deltas ← (s.deltaRowsAfter runId after).mapM s.readDelta
    let revisions := (deltas.map fun delta => delta.key.presentationRevision).eraseDups
    let expectedCount := row.presentationRevision - after
    if revisions.length ≠ expectedCount ∨
        revisions.zipIdx.any (fun e => decide (e.1 ≠ after + e.2 + 1)) = true then
      pure snapshot
    else pure (.deltas row.presentationRevision row.retainedFromRevision deltas)

end ViewerState

/-! ## Histories -/

/-- What happens to the tables: the two writers of this file, and other users of
the blobs, who cannot drop one that a delta refers to. -/
inductive ViewerAction (δ : Type) where
  | start (runId : String) (now : Int)
  | record (heldElsewhere : δ → Bool) (runId : String) (drafts : List ViewerDeltaDraft) (now : Int)
  | putBlob (content mediaType : String) (now : Int)
  | dropBlob (hash : δ)

namespace ViewerState

variable {δ : Type} [DecidableEq δ] (sha256 : String → δ) (s : ViewerState δ)

def step : ViewerAction δ → Except String (ViewerState δ)
  | .start runId now => .ok (s.initializeViewerRun runId now)
  | .record heldElsewhere runId drafts now =>
      (s.recordViewerDeltas sha256 heldElsewhere runId drafts now).map Prod.snd
  | .putBlob content mediaType now => do
      let (_, state) ← s.state.putBlob sha256 content mediaType now
      pure { s with state }
  | .dropBlob hash => do
      require (refersTo s.viewerDeltas hash = false) "FOREIGN KEY constraint failed"
      pure (s.deleteBlob (fun _ => false) hash)

def fresh : ViewerState δ := ⟨.fresh, .empty, .empty⟩

def run (actions : List (ViewerAction δ)) : ViewerState δ :=
  Trace.served (step sha256) fresh actions

end ViewerState

/-! ## Tails -/

end PiWorkflows
