import Mathlib.Data.List.Induction
import PiWorkflows.Proofs.ContentStore
import PiWorkflows.State.Viewer

/-!
# What a viewer with a cursor is told

The accepted calls of a run are numbered by the revisions they made, from two on
(`publishedDeltas`). The table holds the rows of the latest of them, in order, and
the blob of each row holds its patch (`Tracked`): dropping the blobs of stale rows
leaves those that a row still refers to, of whichever run. So what is read after a
cursor is what was recorded after it, all of it and nothing else, unless a
revision the viewer needs has gone (`viewerDeltas_read`).
-/

namespace PiWorkflows

open Fallible

/-! ## Patches are read back -/

/-- The operation as it is read, with the members of values in canonical order. -/
def ViewerPatchOperation.normalized : ViewerPatchOperation → ViewerPatchOperation
  | .add path value => .add path (normalizeJson value)
  | .replace path value => .replace path (normalizeJson value)
  | .remove path => .remove path
  | .append path value => .append path (value.map normalizeJson)

theorem reparse_ok (value : Json) : reparse value = .ok (normalizeJson value) := by
  rw [reparse, parseJson_canonicalJson]
  rfl

theorem parseOperation_toJson (operation : ViewerPatchOperation) :
    parseOperation (normalizeJson operation.toJson) = .ok operation.normalized := by
  cases operation with
  | add path value =>
      show (reparse (normalizeJson value)).map _ = _
      rw [reparse_ok, normalizeJson_idem]
      rfl
  | replace path value =>
      show (reparse (normalizeJson value)).map _ = _
      rw [reparse_ok, normalizeJson_idem]
      rfl
  | remove path => rfl
  | append path value =>
      show ((normalizeItems value).mapM reparse).map _ = _
      rw [normalizeItems_eq_map, mapM_eq_map fun item _ => reparse_ok item, List.map_map]
      have hidem : (normalizeJson ∘ normalizeJson) = normalizeJson :=
        funext normalizeJson_idem
      rw [hidem]
      rfl

theorem parsePatch_toJson (patch : List ViewerPatchOperation) :
    parsePatch (normalizeJson (.arr (patch.map ViewerPatchOperation.toJson))) =
      .ok (patch.map ViewerPatchOperation.normalized) := by
  show (normalizeItems (patch.map ViewerPatchOperation.toJson)).mapM parseOperation = _
  rw [normalizeItems_eq_map, List.map_map, List.mapM_map]
  exact mapM_eq_map fun operation _ => parseOperation_toJson operation

/-! ## What was published -/

/-- One accepted call. -/
structure Publication where
  drafts : List ViewerDeltaDraft
  now : Int

/-- One draft of an accepted call, with the revision the call has made. -/
structure PublishedDelta where
  revision : Nat
  index : Nat
  draft : ViewerDeltaDraft
  now : Int

/-- The drafts of one call. -/
def Publication.deltas (revision : Nat) (publication : Publication) : List PublishedDelta :=
  publication.drafts.zipIdx.map fun e => ⟨revision, e.2, e.1, publication.now⟩

/-- The drafts of all calls: a run starts at revision one, and each call makes the next. -/
def publishedDeltas (log : List Publication) : List PublishedDelta :=
  (log.zipIdx 2).flatMap fun e => e.1.deltas e.2

namespace PublishedDelta

variable {δ : Type} (sha256 : String → δ) (runId : String) (delta : PublishedDelta)

/-- The call that stores the patch. -/
def put : Put :=
  .json (.arr ((deltaPatch delta.revision delta.draft).map ViewerPatchOperation.toJson)) delta.now

def key : ViewerDeltaKey :=
  ⟨runId, delta.revision, delta.index⟩

/-- The row of the table. -/
def row : ViewerDeltaKey × ViewerDelta δ :=
  (delta.key runId, ⟨delta.draft.targetType, delta.draft.targetKey.getD "", sha256 delta.put.content,
    delta.now⟩)

/-- What a viewer is given. -/
def record : ViewerDeltaRecord :=
  ⟨delta.key runId, delta.draft.targetType, delta.draft.targetKey.getD "",
    (deltaPatch delta.revision delta.draft).map ViewerPatchOperation.normalized, delta.now⟩

end PublishedDelta

section

variable {log : List Publication} {publication : Publication} {delta : PublishedDelta}

theorem publishedDeltas_append (log : List Publication) (publication : Publication) :
    publishedDeltas (log ++ [publication]) =
      publishedDeltas log ++ publication.deltas (log.length + 2) := by
  rw [publishedDeltas, List.zipIdx_append, List.flatMap_append, publishedDeltas,
    Nat.add_comm log.length]
  simp

theorem Publication.revision_of_mem {revision : Nat} (h : delta ∈ publication.deltas revision) :
    delta.revision = revision := by
  obtain ⟨_, -, rfl⟩ := List.mem_map.1 h
  rfl

theorem revision_le (h : delta ∈ publishedDeltas log) : delta.revision ≤ log.length + 1 := by
  induction log using List.reverseRecOn with
  | nil => exact absurd h List.not_mem_nil
  | append_singleton log publication ih =>
      rw [publishedDeltas_append, List.mem_append] at h
      rw [List.length_append, List.length_singleton]
      rcases h with hbefore | hlast
      · have := ih hbefore
        omega
      · rw [Publication.revision_of_mem hlast]

/-- Published deltas come in the order of their revisions and indices. -/
theorem pairwise_publishedDeltas (log : List Publication) :
    (publishedDeltas log).Pairwise fun a b =>
      a.revision < b.revision ∨ a.revision = b.revision ∧ a.index ≤ b.index := by
  induction log using List.reverseRecOn with
  | nil => exact List.Pairwise.nil
  | append_singleton log publication ih =>
      rw [publishedDeltas_append, List.pairwise_append]
      refine ⟨ih, ?_, fun a ha b hb => .inl ?_⟩
      · rw [Publication.deltas, List.pairwise_map]
        have hindex : (publication.drafts.zipIdx.map Prod.snd).Pairwise (· < ·) := by
          rw [List.zipIdx_map_snd]
          exact List.pairwise_lt_range'
        exact (List.pairwise_map.1 hindex).imp fun hlt => .inr ⟨rfl, hlt.le⟩
      · rw [Publication.revision_of_mem hb]
        exact Nat.lt_succ_of_le (revision_le ha)

/-- The deltas of the revisions after one. -/
def deltasAfter (revision : Nat) (log : List Publication) : List PublishedDelta :=
  (publishedDeltas log).filter fun delta => decide (revision < delta.revision)

theorem deltasAfter_append {revision : Nat} (h : revision ≤ log.length + 1) :
    deltasAfter revision (log ++ [publication]) =
      deltasAfter revision log ++ publication.deltas (log.length + 2) := by
  rw [deltasAfter, publishedDeltas_append, List.filter_append, deltasAfter]
  congr 1
  refine List.filter_eq_self.2 fun delta hdelta => decide_eq_true ?_
  rw [Publication.revision_of_mem hdelta]
  omega

theorem deltasAfter_eq_nil {revision : Nat} (h : log.length + 1 ≤ revision) :
    deltasAfter revision log = [] := by
  refine List.filter_eq_nil_iff.2 fun delta hdelta hafter => ?_
  have hle := revision_le hdelta
  have hlt := of_decide_eq_true hafter
  omega

/-- The drafts of one call are of one revision. -/
theorem Publication.revisions_deltas (publication : Publication) (revision : Nat) :
    (publication.deltas revision).map PublishedDelta.revision =
      List.replicate publication.drafts.length revision := by
  rw [List.eq_replicate_iff]
  refine ⟨by rw [Publication.deltas, List.length_map, List.length_map, List.length_zipIdx], ?_⟩
  intro r hr
  obtain ⟨delta, hdelta, rfl⟩ := List.mem_map.1 hr
  exact Publication.revision_of_mem hdelta

theorem eraseDups_replicate {α : Type} [BEq α] [LawfulBEq α] {n : Nat} (h : n ≠ 0) (a : α) :
    (List.replicate n a).eraseDups = [a] := by
  cases n with
  | zero => exact absurd rfl h
  | succ n =>
      rw [List.replicate_succ, List.eraseDups_cons]
      congr 1
      rw [List.filter_eq_nil_iff.2, List.eraseDups_nil]
      intro b hb
      rw [List.eq_of_mem_replicate hb]
      simp

/-- Every revision after one has deltas, so none is missing among them. -/
theorem revisions_deltasAfter (hdrafts : ∀ publication ∈ log, publication.drafts ≠ [])
    {revision : Nat} (hone : 1 ≤ revision) :
    ((deltasAfter revision log).map PublishedDelta.revision).eraseDups =
      List.range' (revision + 1) (log.length + 1 - revision) := by
  induction log using List.reverseRecOn with
  | nil =>
      rw [deltasAfter_eq_nil (by rw [List.length_nil]; exact hone), Nat.sub_eq_zero_of_le]
      · rfl
      · rw [List.length_nil]
        exact hone
  | append_singleton log publication ih =>
      rw [List.length_append, List.length_singleton]
      rcases Nat.lt_or_ge (log.length + 1) revision with hpast | hwithin
      · rw [deltasAfter_eq_nil (by rw [List.length_append, List.length_singleton]; exact hpast),
          Nat.sub_eq_zero_of_le hpast]
        rfl
      · have hdraft := hdrafts publication (List.mem_append_right _ (List.mem_singleton_self _))
        have hlen : publication.drafts.length ≠ 0 := mt List.length_eq_zero_iff.1 hdraft
        have hnew : ((publication.deltas (log.length + 2)).map PublishedDelta.revision).removeAll
            ((deltasAfter revision log).map PublishedDelta.revision) =
              List.replicate publication.drafts.length (log.length + 2) := by
          rw [Publication.revisions_deltas, List.removeAll, List.filter_eq_self]
          intro r hr
          rw [List.eq_of_mem_replicate hr, Bool.not_eq_true', List.elem_eq_mem, decide_eq_false_iff_not]
          intro hmem
          obtain ⟨delta, hdelta, heq⟩ := List.mem_map.1 hmem
          have hle := revision_le (List.mem_filter.1 hdelta).1
          omega
        rw [deltasAfter_append hwithin, List.map_append, List.eraseDups_append, hnew,
          eraseDups_replicate hlen,
          ih fun p hp => hdrafts p (List.mem_append_left _ hp)]
        have hsplit : log.length + 1 + 1 - revision = log.length + 1 - revision + 1 := by omega
        have hlast : revision + 1 + 1 * (log.length + 1 - revision) = log.length + 2 := by omega
        rw [hsplit, List.range'_concat, hlast]

/-! ## The rows that are kept -/

/-- The first revision that is kept. -/
def retainedFrom (log : List Publication) : Nat :=
  max 1 (log.length + 1 - VIEWER_DELTA_RETENTION + 1)

theorem one_le_retainedFrom (log : List Publication) : 1 ≤ retainedFrom log :=
  Nat.le_max_left 1 _

theorem retainedFrom_le (log : List Publication) : retainedFrom log ≤ log.length + 1 := by
  rw [retainedFrom, VIEWER_DELTA_RETENTION]
  omega

theorem retainedFrom_append (log : List Publication) (publication : Publication) :
    retainedFrom (log ++ [publication]) = max 1 (log.length + 2 - VIEWER_DELTA_RETENTION + 1) := by
  rw [retainedFrom, List.length_append, List.length_singleton]

theorem retainedFrom_le_append (log : List Publication) (publication : Publication) :
    retainedFrom log ≤ retainedFrom (log ++ [publication]) := by
  rw [retainedFrom_append, retainedFrom]
  omega

/-- The deltas of revisions that are kept. -/
def keptDeltas (log : List Publication) : List PublishedDelta :=
  deltasAfter (retainedFrom log - 1) log

theorem deltasAfter_filter {first second : Nat} (h : first ≤ second) (log : List Publication) :
    (deltasAfter first log).filter (fun delta => decide (second < delta.revision)) =
      deltasAfter second log := by
  rw [deltasAfter, List.filter_filter, deltasAfter]
  refine List.filter_congr fun delta _ => ?_
  rw [← Bool.decide_and, decide_eq_decide]
  omega

/-- What is left of the old rows and the new ones. -/
theorem keptDeltas_append (log : List Publication) (publication : Publication) :
    keptDeltas (log ++ [publication]) =
      (keptDeltas log ++ publication.deltas (log.length + 2)).filter fun delta =>
        decide (retainedFrom (log ++ [publication]) - 1 < delta.revision) := by
  have hle := retainedFrom_le log
  have hgrow := retainedFrom_le_append log publication
  rw [keptDeltas, keptDeltas, ← deltasAfter_append (by omega), deltasAfter_filter (by omega)]

theorem deltasAfter_subset_kept {revision : Nat} (h : retainedFrom log - 1 ≤ revision) :
    ∀ delta ∈ deltasAfter revision log, delta ∈ keptDeltas log := by
  intro delta hdelta
  rw [← deltasAfter_filter h] at hdelta
  exact (List.mem_filter.1 hdelta).1

end

/-! ## What the writers do -/

namespace ViewerState

variable {δ : Type} [DecidableEq δ] {sha256 : String → δ} {s s' : ViewerState δ} {runId : String}

theorem insertDelta_ok {delta : PublishedDelta}
    (h : insertDelta sha256 runId delta.revision delta.now s (delta.draft, delta.index) = .ok s') :
    s'.viewerRuns = s.viewerRuns ∧
      s'.viewerDeltas.rows = s.viewerDeltas.rows ++ [delta.row sha256 runId] ∧
      delta.put.StoredBy sha256 s'.state ∧
      ∀ hash blob, s.state.readBlob hash = some blob → s'.state.readBlob hash = some blob := by
  simp only [insertDelta, bind_ok, orThrow_ok, pure_ok, Prod.exists] at h
  obtain ⟨patchHash, state, hput, viewerDeltas, hinsert, rfl⟩ := h
  have hrun : delta.put.run sha256 s.state = .ok (patchHash, state) := hput
  obtain ⟨rfl, -, hstored, hkept, -⟩ := run_ok hrun
  obtain ⟨hfree, rfl⟩ := Table.insert?_eq_some.1 hinsert
  exact ⟨rfl, rfl, hstored, hkept⟩

/-- The rows of one call, and their blobs. -/
theorem insertDeltas_ok {deltas : List PublishedDelta} {revision : Nat} {now : Int}
    (hdeltas : ∀ delta ∈ deltas, delta.revision = revision ∧ delta.now = now)
    (h : (deltas.map fun delta => (delta.draft, delta.index)).foldlM
      (insertDelta sha256 runId revision now) s = .ok s') :
    s'.viewerRuns = s.viewerRuns ∧
      s'.viewerDeltas.rows = s.viewerDeltas.rows ++ deltas.map (PublishedDelta.row sha256 runId) ∧
      (∀ delta ∈ deltas, delta.put.StoredBy sha256 s'.state) ∧
      ∀ hash blob, s.state.readBlob hash = some blob → s'.state.readBlob hash = some blob := by
  induction deltas generalizing s with
  | nil =>
      rw [List.map_nil, List.foldlM_nil, pure_ok] at h
      subst h
      exact ⟨rfl, (List.append_nil _).symm, fun _ hdelta => absurd hdelta List.not_mem_nil,
        fun _ _ hblob => hblob⟩
  | cons delta deltas ih =>
      rw [List.map_cons, List.foldlM_cons, bind_ok] at h
      obtain ⟨mid, hfirst, hrest⟩ := h
      obtain ⟨rfl, rfl⟩ := hdeltas delta List.mem_cons_self
      obtain ⟨hruns, hrows, ⟨blob, hblob, hagree⟩, hkept⟩ := insertDelta_ok hfirst
      obtain ⟨hruns', hrows', hstored', hkept'⟩ :=
        ih (fun d hd => hdeltas d (List.mem_cons_of_mem _ hd)) hrest
      refine ⟨hruns'.trans hruns, ?_, List.forall_mem_cons.2 ⟨?_, hstored'⟩,
        fun hash old hold => hkept' hash old (hkept hash old hold)⟩
      · rw [hrows', hrows, List.append_assoc]
        rfl
      · exact ⟨blob, hkept' _ _ hblob, hagree⟩

/-- Dropping a blob leaves those that a row refers to. -/
theorem deleteBlob_frame (heldElsewhere : δ → Bool) (s : ViewerState δ) (dropped : δ) :
    (s.deleteBlob heldElsewhere dropped).viewerRuns = s.viewerRuns ∧
      (s.deleteBlob heldElsewhere dropped).viewerDeltas = s.viewerDeltas ∧
      ∀ hash, refersTo s.viewerDeltas hash = true →
        (s.deleteBlob heldElsewhere dropped).state.readBlob hash = s.state.readBlob hash := by
  unfold deleteBlob
  split
  · exact ⟨rfl, rfl, fun _ _ => rfl⟩
  · next hfree =>
      refine ⟨rfl, rfl, fun hash hrefers => ?_⟩
      rw [StateDatabase.readBlob, Table.get?_erase, if_neg]
      · rfl
      · rintro rfl
        exact hfree (by rw [hrefers, Bool.true_or])

theorem deleteBlobs_frame (heldElsewhere : δ → Bool) (hashes : List δ) (s : ViewerState δ) :
    (hashes.foldl (deleteBlob heldElsewhere) s).viewerRuns = s.viewerRuns ∧
      (hashes.foldl (deleteBlob heldElsewhere) s).viewerDeltas = s.viewerDeltas ∧
      ∀ hash, refersTo s.viewerDeltas hash = true →
        (hashes.foldl (deleteBlob heldElsewhere) s).state.readBlob hash =
          s.state.readBlob hash := by
  induction hashes generalizing s with
  | nil => exact ⟨rfl, rfl, fun _ _ => rfl⟩
  | cons dropped hashes ih =>
      rw [List.foldl_cons]
      obtain ⟨hruns, hdeltas, hblobs⟩ := ih (s.deleteBlob heldElsewhere dropped)
      obtain ⟨hruns', hdeltas', hblobs'⟩ := deleteBlob_frame heldElsewhere s dropped
      refine ⟨hruns.trans hruns', hdeltas.trans hdeltas', fun hash hrefers => ?_⟩
      rw [hblobs hash (hdeltas' ▸ hrefers), hblobs' hash hrefers]

theorem refersTo_of_mem {viewerDeltas : Table ViewerDeltaKey (ViewerDelta δ)}
    {delta : PublishedDelta} (h : delta.row sha256 runId ∈ viewerDeltas.rows) :
    refersTo viewerDeltas (sha256 delta.put.content) = true :=
  List.any_eq_true.2 ⟨_, h, decide_eq_true rfl⟩

/-- What an accepted call does. -/
theorem recordViewerDeltas_ok {heldElsewhere : δ → Bool} {publication : Publication}
    {revision : Nat}
    (h : s.recordViewerDeltas sha256 heldElsewhere runId publication.drafts publication.now =
      .ok (revision, s')) :
    publication.drafts ≠ [] ∧ ∃ row, s.viewerRuns.get? runId = some row ∧
      revision = row.presentationRevision + 1 ∧
      s'.viewerRuns = s.viewerRuns.update runId (fun _ =>
        ⟨revision, max 1 (revision - VIEWER_DELTA_RETENTION + 1), publication.now⟩) ∧
      s'.viewerDeltas.rows = (s.viewerDeltas.rows ++
          (publication.deltas revision).map (PublishedDelta.row sha256 runId)).filter (fun e =>
        !isStale runId (max 1 (revision - VIEWER_DELTA_RETENTION + 1)) e.1) ∧
      (∀ delta ∈ publication.deltas revision,
        refersTo s'.viewerDeltas (sha256 delta.put.content) = true →
          delta.put.StoredBy sha256 s'.state) ∧
      ∀ hash blob, refersTo s'.viewerDeltas hash = true → s.state.readBlob hash = some blob →
        s'.state.readBlob hash = some blob := by
  simp only [recordViewerDeltas, bind_ok, require_ok, orThrow_ok, pure_ok, Prod.mk.injEq] at h
  obtain ⟨_, hdrafts, row, hrow, inserted, hinserted, rfl, rfl⟩ := h
  have hfold : ((publication.deltas (row.presentationRevision + 1)).map fun delta =>
      (delta.draft, delta.index)) = publication.drafts.zipIdx := by
    rw [Publication.deltas, List.map_map]
    exact List.map_id _
  rw [← hfold] at hinserted
  obtain ⟨hruns, hrows, hstored, hkept⟩ := insertDeltas_ok (by
    intro delta hdelta
    obtain ⟨_, -, rfl⟩ := List.mem_map.1 hdelta
    exact ⟨rfl, rfl⟩) hinserted
  obtain ⟨hruns', hdeltas', hblobs⟩ := deleteBlobs_frame heldElsewhere _ _
  refine ⟨hdrafts, row, hrow, rfl, ?_, ?_, ?_, ?_⟩
  · rw [hruns', hruns]
  · rw [hdeltas', ← hrows]
    rfl
  · rintro delta hdelta hrefers
    obtain ⟨blob, hblob, hagree⟩ := hstored delta hdelta
    rw [hdeltas'] at hrefers
    exact ⟨blob, (hblobs _ hrefers).trans hblob, hagree⟩
  · intro hash blob hrefers hblob
    rw [hdeltas'] at hrefers
    exact (hblobs _ hrefers).trans (hkept hash blob hblob)

/-! ## Every history keeps track -/

variable (sha256 runId) in
/-- The row of a run tells how many calls were accepted, and the table holds what
is kept of them. -/
structure Tracked (log : List Publication) (s : ViewerState δ) : Prop where
  started : ∀ row, s.viewerRuns.get? runId = some row →
    row.presentationRevision = log.length + 1 ∧ row.retainedFromRevision = retainedFrom log
  unstarted : s.viewerRuns.get? runId = none → log = []
  drafts : ∀ publication ∈ log, publication.drafts ≠ []
  rows : s.viewerDeltas.rows.filter (fun e => decide (e.1.runId = runId)) =
    (keptDeltas log).map (PublishedDelta.row sha256 runId)
  stored : ∀ delta ∈ keptDeltas log, delta.put.StoredBy sha256 s.state

variable {log : List Publication}

/-- A step that leaves the rows of the run, its number and its blobs alone. -/
theorem Tracked.mono (h : Tracked sha256 runId log s)
    (hruns : s'.viewerRuns.get? runId = s.viewerRuns.get? runId)
    (hrows : s'.viewerDeltas.rows.filter (fun e => decide (e.1.runId = runId)) =
      s.viewerDeltas.rows.filter (fun e => decide (e.1.runId = runId)))
    (hblobs : ∀ hash blob, refersTo s'.viewerDeltas hash = true →
      s.state.readBlob hash = some blob → s'.state.readBlob hash = some blob) :
    Tracked sha256 runId log s' := by
  have hrows' := hrows.trans h.rows
  refine ⟨fun row hrow => h.started row (hruns ▸ hrow), fun hnone => h.unstarted (hruns ▸ hnone),
    h.drafts, hrows', fun delta hdelta => ?_⟩
  obtain ⟨blob, hblob, hagree⟩ := h.stored delta hdelta
  have hmem := List.mem_map_of_mem (f := PublishedDelta.row sha256 runId) hdelta
  rw [← hrows'] at hmem
  exact ⟨blob, hblobs _ blob (refersTo_of_mem (List.mem_filter.1 hmem).1) hblob, hagree⟩

theorem tracked_fresh : Tracked sha256 runId [] (fresh : ViewerState δ) :=
  ⟨fun _ hrow => (nomatch hrow), fun _ => rfl, fun _ hmem => absurd hmem List.not_mem_nil, rfl,
    fun _ hmem => absurd hmem List.not_mem_nil⟩

theorem tracked_initialize (h : Tracked sha256 runId log s) (target : String) (now : Int) :
    Tracked sha256 runId log (s.initializeViewerRun target now) := by
  refine ⟨fun row hrow => ?_, fun hnone => ?_, h.drafts, h.rows, h.stored⟩
  · rw [initializeViewerRun, Table.get?_insert?_getD] at hrow
    split at hrow
    · next heq =>
        subst heq
        cases hold : s.viewerRuns.get? runId with
        | none =>
            rw [hold, Option.getD_none] at hrow
            obtain rfl := Option.some.inj hrow
            rw [h.unstarted hold]
            exact ⟨rfl, rfl⟩
        | some old =>
            rw [hold, Option.getD_some] at hrow
            obtain rfl := Option.some.inj hrow
            exact h.started old hold
    · exact h.started row hrow
  · rw [initializeViewerRun, Table.get?_insert?_getD] at hnone
    split at hnone
    · cases hnone
    · exact h.unstarted hnone

theorem tracked_record_other {heldElsewhere : δ → Bool} (publication : Publication)
    {target : String} {revision : Nat} (h : Tracked sha256 runId log s) (hne : target ≠ runId)
    (hrecord : s.recordViewerDeltas sha256 heldElsewhere target publication.drafts
      publication.now = .ok (revision, s')) : Tracked sha256 runId log s' := by
  obtain ⟨-, row, hrow, -, hruns, hrows, -, hblobs⟩ := recordViewerDeltas_ok hrecord
  refine h.mono ?_ ?_ hblobs
  · rw [hruns, Table.get?_update_ne hne.symm]
  · have hnew : (((publication.deltas revision).map (PublishedDelta.row sha256 target)).filter
        fun e => decide (e.1.runId = runId)) = [] := by
      refine List.filter_eq_nil_iff.2 fun e he => ?_
      obtain ⟨delta, -, rfl⟩ := List.mem_map.1 he
      exact fun heq => hne (of_decide_eq_true heq)
    rw [hrows, List.filter_filter]
    rw [← List.append_nil (s.viewerDeltas.rows.filter _), ← hnew, ← List.filter_append]
    refine List.filter_congr fun e _ => ?_
    cases hown : decide (e.1.runId = runId) with
    | false => rfl
    | true =>
        have hstale : e.1.runId ≠ target := fun heq => hne (heq ▸ of_decide_eq_true hown)
        simp [isStale, hstale]

theorem tracked_record {heldElsewhere : δ → Bool} (publication : Publication) {revision : Nat}
    (h : Tracked sha256 runId log s)
    (hrecord : s.recordViewerDeltas sha256 heldElsewhere runId publication.drafts
      publication.now = .ok (revision, s')) :
    Tracked sha256 runId (log ++ [publication]) s' := by
  obtain ⟨hdrafts, row, hrow, rfl, hruns, hrows, hstored, hblobs⟩ := recordViewerDeltas_ok hrecord
  obtain ⟨hrevision, -⟩ := h.started row hrow
  have hnext : row.presentationRevision + 1 = log.length + 2 := by rw [hrevision]
  rw [hnext, ← retainedFrom_append log publication] at hrows hruns
  rw [hnext] at hstored
  have hrows' : s'.viewerDeltas.rows.filter (fun e => decide (e.1.runId = runId)) =
      (keptDeltas (log ++ [publication])).map (PublishedDelta.row sha256 runId) := by
    have hown : (s.viewerDeltas.rows ++ (publication.deltas (log.length + 2)).map
          (PublishedDelta.row sha256 runId)).filter (fun e => decide (e.1.runId = runId)) =
        (keptDeltas log ++ publication.deltas (log.length + 2)).map
          (PublishedDelta.row sha256 runId) := by
      rw [List.filter_append, h.rows, List.map_append]
      congr 1
      refine List.filter_eq_self.2 fun e he => ?_
      obtain ⟨delta, -, rfl⟩ := List.mem_map.1 he
      exact decide_eq_true rfl
    rw [hrows, List.filter_comm, hown, List.filter_map, keptDeltas_append]
    congr 1
    refine List.filter_congr fun delta _ => ?_
    have hone := one_le_retainedFrom (log ++ [publication])
    have hkey : ((PublishedDelta.row sha256 runId delta).1.runId = runId ∧
        (PublishedDelta.row sha256 runId delta).1.presentationRevision <
          retainedFrom (log ++ [publication])) ↔
        delta.revision < retainedFrom (log ++ [publication]) := and_iff_right rfl
    rw [Function.comp_apply, isStale, Bool.eq_iff_iff, Bool.not_eq_true', decide_eq_false_iff_not,
      hkey, decide_eq_true_eq]
    omega
  have hmem : ∀ delta ∈ keptDeltas (log ++ [publication]),
      refersTo s'.viewerDeltas (sha256 delta.put.content) = true := by
    intro delta hdelta
    have hin := List.mem_map_of_mem (f := PublishedDelta.row sha256 runId) hdelta
    rw [← hrows'] at hin
    exact refersTo_of_mem (List.mem_filter.1 hin).1
  refine ⟨fun row' hrow' => ?_, fun hnone => ?_, ?_, hrows', fun delta hdelta => ?_⟩
  · rw [hruns, Table.get?_update_self, hrow] at hrow'
    obtain rfl := Option.some.inj hrow'
    exact ⟨by rw [List.length_append, List.length_singleton], rfl⟩
  · rw [hruns, Table.get?_update_self, hrow] at hnone
    cases hnone
  · rw [List.forall_mem_append]
    exact ⟨h.drafts, List.forall_mem_singleton.2 hdrafts⟩
  · have hin := hdelta
    rw [keptDeltas_append] at hin
    rcases List.mem_append.1 (List.mem_filter.1 hin).1 with hbefore | hlast
    · obtain ⟨blob, hblob, hagree⟩ := h.stored delta hbefore
      exact ⟨blob, hblobs _ blob (hmem delta hdelta) hblob, hagree⟩
    · exact hstored delta hlast (hmem delta hdelta)

/-- The calls for the run that are accepted. -/
def publicationOf (sha256 : String → δ) (runId : String) (s : ViewerState δ) :
    ViewerAction δ → Option Publication
  | .record heldElsewhere target drafts now =>
      match s.recordViewerDeltas sha256 heldElsewhere target drafts now with
      | .ok _ => if target = runId then some ⟨drafts, now⟩ else none
      | .error _ => none
  | _ => none

variable (sha256 runId) in
/-- All of them in a history. -/
def published : ViewerState δ → List (ViewerAction δ) → List Publication
  | _, [] => []
  | s, action :: rest =>
      (publicationOf sha256 runId s action).toList ++
        published (Trace.serve (step sha256) s action) rest

theorem tracked_step (h : Tracked sha256 runId log s) (action : ViewerAction δ) :
    Tracked sha256 runId (log ++ (publicationOf sha256 runId s action).toList)
      (Trace.serve (step sha256) s action) := by
  have hnone : Tracked sha256 runId (log ++ (none : Option Publication).toList) s := by
    rw [Option.toList_none, List.append_nil]
    exact h
  cases action with
  | start target now =>
      show Tracked sha256 runId (log ++ []) _
      rw [List.append_nil]
      exact tracked_initialize h target now
  | record heldElsewhere target drafts now =>
      rw [Trace.serve, step]
      cases hrecord : s.recordViewerDeltas sha256 heldElsewhere target drafts now with
      | error message =>
          rw [publicationOf, hrecord]
          exact hnone
      | ok result =>
          obtain ⟨revision, s'⟩ := result
          by_cases hown : target = runId
          · subst hown
            have hnew : publicationOf sha256 target s (.record heldElsewhere target drafts now) =
                some ⟨drafts, now⟩ := by
              rw [publicationOf, hrecord]
              exact if_pos rfl
            rw [hnew]
            exact tracked_record ⟨drafts, now⟩ h hrecord
          · have hother : publicationOf sha256 runId s (.record heldElsewhere target drafts now) =
                none := by
              rw [publicationOf, hrecord]
              exact if_neg hown
            rw [hother, Option.toList_none, List.append_nil]
            exact tracked_record_other ⟨drafts, now⟩ h hown hrecord
  | putBlob content mediaType now =>
      show Tracked sha256 runId (log ++ []) _
      rw [List.append_nil, Trace.serve]
      split
      · next s' hstep =>
          simp only [step, bind_ok, pure_ok, Prod.exists] at hstep
          obtain ⟨hash, state, hput, rfl⟩ := hstep
          exact h.mono rfl rfl fun hash blob _ => (putBlob_ok hput).2.2.2.1 hash blob
      · exact h
  | dropBlob hash =>
      show Tracked sha256 runId (log ++ []) _
      rw [List.append_nil, Trace.serve]
      split
      · next s' hstep =>
          simp only [step, bind_ok, require_ok, pure_ok] at hstep
          obtain ⟨_, -, rfl⟩ := hstep
          obtain ⟨hruns, hdeltas, hblobs⟩ := deleteBlob_frame (fun _ => false) s hash
          refine h.mono (congrArg (Table.get? · runId) hruns) (by rw [hdeltas]) ?_
          intro kept blob hrefers hblob
          rw [hdeltas] at hrefers
          exact (hblobs kept hrefers).trans hblob
      · exact h

/-! ## What is read -/

theorem readDelta_row {delta : PublishedDelta} (h : delta.put.StoredBy sha256 s.state) :
    s.readDelta (delta.row sha256 runId) = .ok (delta.record runId) := by
  obtain ⟨blob, hblob, hmedia, hcontent⟩ := h
  have hread : s.state.readJson (sha256 delta.put.content) = .ok (normalizeJson
      (.arr ((deltaPatch delta.revision delta.draft).map ViewerPatchOperation.toJson))) := by
    rw [StateDatabase.readJson, hblob]
    simp only [bind_ok, require_ok, orThrow_ok]
    exact ⟨.unit, hmedia, by rw [hcontent]; exact parseJson_canonicalJson _⟩
  rw [readDelta]
  simp only [bind_ok, pure_ok]
  exact ⟨_, hread, _, parsePatch_toJson _, rfl⟩

theorem Tracked.deltaRowsAfter (h : Tracked sha256 runId log s) {revision : Nat}
    (hkept : retainedFrom log - 1 ≤ revision) :
    s.deltaRowsAfter runId revision =
      (deltasAfter revision log).map (PublishedDelta.row sha256 runId) := by
  have hrows : s.viewerDeltas.rows.filter (fun e =>
        decide (e.1.runId = runId ∧ revision < e.1.presentationRevision)) =
      (deltasAfter revision log).map (PublishedDelta.row sha256 runId) := by
    simp only [Bool.decide_and]
    rw [← List.filter_filter, List.filter_comm, h.rows, List.filter_map, ← deltasAfter_filter hkept]
    rfl
  rw [ViewerState.deltaRowsAfter, hrows]
  refine List.mergeSort_of_pairwise (List.pairwise_map.2 ?_)
  exact ((pairwise_publishedDeltas log).filter _).imp fun horder => decide_eq_true horder

/-- The revisions read after a cursor have no gap. -/
theorem consecutive_range' (start count : Nat) :
    (List.range' (start + 1) count).zipIdx.any (fun e => decide (e.1 ≠ start + e.2 + 1)) =
      false := by
  rw [List.any_eq_false]
  rintro ⟨r, index⟩ hmem
  obtain ⟨-, hlt, heq⟩ := List.mem_zipIdx hmem
  rw [List.getElem_range'] at heq
  simp only [ne_eq, decide_eq_true_eq, not_not]
  omega

theorem Tracked.readViewerDeltas (h : Tracked sha256 runId log s) {row : ViewerRun}
    (hrow : s.viewerRuns.get? runId = some row) (cursor : Nat) :
    s.readViewerDeltas runId cursor = .ok
      (if cursor = 0 ∨ row.presentationRevision < cursor ∨ cursor < row.retainedFromRevision - 1
        then .snapshot_required row.presentationRevision row.retainedFromRevision
        else .deltas row.presentationRevision row.retainedFromRevision
          ((deltasAfter cursor log).map (PublishedDelta.record runId))) := by
  rw [ViewerState.readViewerDeltas]
  simp only [bind_ok, require_ok, orThrow_ok]
  refine ⟨.unit, Int.natCast_nonneg cursor, row, hrow, ?_⟩
  rw [Int.toNat_natCast]
  split
  · rfl
  · next hwithin =>
      obtain ⟨hrevision, hretained⟩ := h.started row hrow
      rw [not_or, not_or, Nat.not_lt, Nat.not_lt] at hwithin
      obtain ⟨hzero, hahead, hkept⟩ := hwithin
      rw [hretained] at hkept
      have hreads : (s.deltaRowsAfter runId cursor).mapM s.readDelta =
          .ok ((deltasAfter cursor log).map (PublishedDelta.record runId)) := by
        rw [h.deltaRowsAfter hkept, List.mapM_map]
        exact mapM_eq_map fun delta hdelta =>
          readDelta_row (h.stored delta (deltasAfter_subset_kept hkept delta hdelta))
      rw [bind_ok]
      refine ⟨_, hreads, ?_⟩
      have hrevisions : ((((deltasAfter cursor log).map (PublishedDelta.record runId)).map
          fun delta => delta.key.presentationRevision).eraseDups) =
            List.range' (cursor + 1) (row.presentationRevision - cursor) := by
        rw [List.map_map, hrevision]
        exact revisions_deltasAfter h.drafts (Nat.one_le_iff_ne_zero.2 hzero)
      rw [hrevisions, List.length_range', consecutive_range', if_neg]
      · rfl
      · rintro (hcount | hgap)
        · exact hcount rfl
        · cases hgap

theorem tracked_served (h : Tracked sha256 runId log s) (actions : List (ViewerAction δ)) :
    Tracked sha256 runId (log ++ published sha256 runId s actions)
      (Trace.served (step sha256) s actions) := by
  induction actions generalizing s log with
  | nil =>
      rw [published, List.append_nil]
      exact h
  | cons action rest ih =>
      rw [published, ← List.append_assoc, Trace.served_cons]
      exact ih (tracked_step h action)

/-- A viewer is told to start over exactly if its cursor is zero, is ahead, or needs
a revision that is no longer kept, and is given all that was published after its
cursor otherwise. -/
theorem viewerDeltas_read (sha256 : String → δ) (actions : List (ViewerAction δ)) (runId : String)
    {row : ViewerRun} (hrow : (run sha256 actions).viewerRuns.get? runId = some row)
    (cursor : Nat) :
    row.presentationRevision = (published sha256 runId fresh actions).length + 1 ∧
      row.retainedFromRevision =
        max 1 (row.presentationRevision - VIEWER_DELTA_RETENTION + 1) ∧
      (run sha256 actions).readViewerDeltas runId cursor = .ok
        (if cursor = 0 ∨ row.presentationRevision < cursor ∨ cursor < row.retainedFromRevision - 1
          then .snapshot_required row.presentationRevision row.retainedFromRevision
          else .deltas row.presentationRevision row.retainedFromRevision
            ((deltasAfter cursor (published sha256 runId fresh actions)).map
              (PublishedDelta.record runId))) := by
  have htracked : Tracked sha256 runId (published sha256 runId fresh actions) (run sha256 actions) :=
    tracked_served (show Tracked sha256 runId [] fresh from tracked_fresh) actions
  obtain ⟨hrevision, hretained⟩ := htracked.started row hrow
  refine ⟨hrevision, ?_, htracked.readViewerDeltas hrow cursor⟩
  rw [hretained, hrevision]
  rfl

/-- A run with one change, read from its first revision. -/
theorem oneChange_read :
    ((run id [.start "run" 1, .record (fun _ => false) "run" [⟨.summary, none, none⟩] 2]
      ).readViewerDeltas "run" ((1 : Nat) : Int)) =
        .ok (.deltas 2 1 [PublishedDelta.record "run" ⟨2, 0, ⟨.summary, none, none⟩, 2⟩]) :=
  (viewerDeltas_read id [.start "run" 1,
    .record (fun _ => false) "run" [⟨.summary, none, none⟩] 2] "run"
      (show _ = some (⟨2, 1, 2⟩ : ViewerRun) from rfl) 1).2.2

end ViewerState

end PiWorkflows
