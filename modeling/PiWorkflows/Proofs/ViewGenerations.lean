import Mathlib.Data.List.Induction
import PiWorkflows.Tui.Client

/-!
# When a decoded view is the one of the snapshot that is held

A decoded view is served as long as its number is the one of the raw snapshot, so
what has to hold is that a changed snapshot has another number. Pages and contents
raise the number of their run by one. A snapshot takes the next number of a counter
that these do not move, and so may take a number the run has had already.

Where every snapshot gets a number above the one that is held (`StepFits`), numbers
only rise, and a decoded view with the number of the snapshot was made of it: the
contents it was decoded with are all there, and those stay (`KeepsReady`).
-/

namespace PiWorkflows.Tui

open Fallible

variable {α : Type} {sha256 : Bytes → Vector UInt8 32} {decoder : ViewDecoder α}

/-! ## Contents that are there -/

/-- A content that needs nothing more. -/
def ContentState.Settled : ContentState → Prop
  | .absent | .ready _ => True
  | .pending | .invalid _ => False

/-- Contents of a run that are there stay. -/
def KeepsReady (runId : String) (state later : Shared) : Prop :=
  ∀ path content, state.artifacts.get? (runId, path) = some (.ready content) →
    later.artifacts.get? (runId, path) = some (.ready content)

/-- The contents of a run that are there are the same. -/
def SameReady (runId : String) (state later : Shared) : Prop :=
  KeepsReady runId state later ∧ KeepsReady runId later state

theorem SameReady.refl (runId : String) (state : Shared) : SameReady runId state state :=
  ⟨fun _ _ h => h, fun _ _ h => h⟩

theorem artifactContent_settled {state : Shared} {runId : String} {artifact : Option ArtifactRef}
    {types : List String} {label : String}
    (h : (artifactContent sha256 state runId artifact types label).1.Settled) :
    (artifactContent sha256 state runId artifact types label).2 = state ∧
      ∀ later, KeepsReady runId state later →
        artifactContent sha256 later runId artifact types label =
          ((artifactContent sha256 state runId artifact types label).1, later) := by
  cases artifact with
  | none => exact ⟨rfl, fun later _ => rfl⟩
  | some artifact =>
      simp only [artifactContent, referencedContent] at h ⊢
      cases hentry : state.artifacts.get? (runId, artifact.path) with
      | none =>
          rw [hentry] at h
          exact h.elim
      | some entry =>
          rw [hentry] at h
          cases entry with
          | loading bytes => exact h.elim
          | error message => exact h.elim
          | ready content =>
              dsimp only at h ⊢
              split at h
              · next hfits =>
                  rw [if_pos hfits]
                  refine ⟨rfl, fun later hlater => ?_⟩
                  rw [hlater _ _ hentry]
                  dsimp only
                  rw [if_pos hfits]
              · exact h.elim

/-- Contents that are all there are found again, and nothing changes. -/
theorem viewContent_settled {state : Shared} {runId : String} {raw : Json}
    (h : ∀ item ∈ (viewContent sha256 state runId raw).1.items, item.Settled) :
    (viewContent sha256 state runId raw).2 = state ∧
      ∀ later, KeepsReady runId state later →
        (viewContent sha256 later runId raw).1 = (viewContent sha256 state runId raw).1 := by
  simp only [ViewContent.items, List.forall_mem_cons, viewContent] at h
  obtain ⟨hdefinition, hgraph, hreason, -⟩ := h
  obtain ⟨hstate, hlater⟩ := artifactContent_settled hdefinition
  rw [hstate] at hgraph hreason
  obtain ⟨hstate', hlater'⟩ := artifactContent_settled hgraph
  rw [hstate'] at hreason
  obtain ⟨hstate'', hlater''⟩ := artifactContent_settled hreason
  constructor
  · simp only [viewContent]
    rw [hstate, hstate', hstate'']
  · intro later hkeeps
    simp only [viewContent]
    rw [hlater later hkeeps, hstate, hlater' later hkeeps, hstate', hlater'' later hkeeps]

/-- A view is only decoded of contents that are there. -/
theorem settled_of_ready {revision generation : Nat} {raw : Json} {content : ViewContent}
    {view : RemoteView α} (h : decodeView decoder revision generation raw content = .ready view) :
    (∀ item ∈ content.items, item.Settled) ∧ view.generation = generation := by
  rw [decodeView] at h
  split at h
  · cases h
  · split at h
    · cases h
    · next hinvalid =>
        split at h
        · cases h
        · next hpending =>
            split at h
            · cases h
            · cases h
              refine ⟨fun item hitem => ?_, rfl⟩
              cases item with
              | absent | ready => trivial
              | pending => exact hpending hitem
              | invalid error =>
                  rw [ViewContent.invalid?, List.findSome?_eq_none_iff] at hinvalid
                  exact absurd (hinvalid _ hitem) (by simp)

/-! ## Numbers that rise -/

/-- The snapshots that are held stay as they are, with the contents that are there, or get
a higher number. -/
def Advances (state later : Shared) : Prop :=
  ∀ runId raw, state.rawViews.get? runId = some raw →
    ∃ raw', later.rawViews.get? runId = some raw' ∧
      (raw.generation < raw'.generation ∨ raw' = raw ∧ SameReady runId state later)

/-- No number is the last, and a snapshot gets one above the number that is held. -/
def StepFits (runs : RemoteRuns α) (action : ClientAction) : Prop :=
  (∀ runId raw, runs.shared.rawViews.get? runId = some raw → raw.generation + 1 < 2 ^ 64) ∧
    match action with
    | .message (.runSnapshot (some runId) _ _) =>
        runs.shared.nextViewGeneration + 1 < 2 ^ 64 ∧
          ∀ raw, runs.shared.rawViews.get? runId = some raw →
            raw.generation ≤ runs.shared.nextViewGeneration
    | _ => True

theorem wrappingSucc_of_lt {n : Nat} (h : n + 1 < 2 ^ 64) : wrappingSucc n = n + 1 :=
  Nat.mod_eq_of_lt h

theorem Advances.of_keeps {state later : Shared} (hraw : later.rawViews = state.rawViews)
    (hkeeps : ∀ runId, SameReady runId state later) : Advances state later := by
  intro runId raw hheld
  exact ⟨raw, hraw ▸ hheld, .inr ⟨rfl, hkeeps runId⟩⟩

theorem Advances.refl (state : Shared) : Advances state state :=
  .of_keeps rfl fun runId => .refl runId state

/-- Content that has come takes the place of content that is on its way. -/
theorem sameReady_put {state later : Shared} {key : String × String} {bytes : Bytes}
    (hartifacts : later.artifacts = state.artifacts.put key (.loading bytes))
    (hentry : ∀ content, state.artifacts.get? key ≠ some (.ready content)) (runId : String) :
    SameReady runId state later := by
  constructor
  · intro path content hready
    rw [hartifacts, Table.get?_put]
    split
    · next heq => exact absurd hready (heq ▸ hentry content)
    · exact hready
  · intro path content hready
    rw [hartifacts, Table.get?_put] at hready
    split at hready
    · cases hready
    · exact hready

/-- The contents of other runs are not touched. -/
theorem sameReady_other {state later : Shared} {key : String × String} {entry : ArtifactEntry}
    (hartifacts : later.artifacts = state.artifacts.put key entry) {runId : String}
    (hrun : runId ≠ key.1) : SameReady runId state later := by
  have hsame : ∀ path, later.artifacts.get? (runId, path) = state.artifacts.get? (runId, path) := by
    intro path
    rw [hartifacts, Table.get?_put_ne fun heq => hrun (congrArg Prod.fst heq)]
  exact ⟨fun path content hready => (hsame path).trans hready,
    fun path content hready => (hsame path).symm.trans hready⟩

theorem advances_requestArtifact (runs : RemoteRuns α) (runId path : String) :
    Advances runs.shared (runs.requestArtifact runId path).shared := by
  rw [RemoteRuns.requestArtifact]
  split
  · exact .refl _
  · next hfree =>
      refine .of_keeps rfl (sameReady_put rfl fun content hready => hfree ?_)
      rw [hready]
      rfl

theorem advances_storeSnapshot {state : Shared} {runId : String} {revision : Nat} {value : Json}
    (hnext : state.nextViewGeneration + 1 < 2 ^ 64)
    (hfits : ∀ raw, state.rawViews.get? runId = some raw →
      raw.generation ≤ state.nextViewGeneration) :
    Advances state (storeSnapshot state runId revision value) := by
  intro runId' raw hheld
  simp only [storeSnapshot, Table.get?_put]
  split
  · next heq =>
      subst heq
      have hle := hfits raw hheld
      refine ⟨_, rfl, .inl ?_⟩
      show raw.generation < wrappingSucc state.nextViewGeneration
      rw [wrappingSucc_of_lt hnext]
      omega
  · exact ⟨raw, hheld, .inr ⟨rfl, .refl runId' state⟩⟩

theorem mergePage_ok {state later : Shared} {receipt : Json}
    (h : mergePage state receipt = .ok later) :
    later = state ∨ ∃ runId raw value, state.rawViews.get? runId = some raw ∧
      later = { state with rawViews := state.rawViews.put runId (raw.withPage value) } := by
  simp only [mergePage, bind_ok] at h
  obtain ⟨page, -, h⟩ := h
  split at h
  · exact .inl (Except.ok.inj h).symm
  · split at h
    · exact .inl (Except.ok.inj h).symm
    · next raw hraw =>
        split at h
        · exact .inl (Except.ok.inj h).symm
        · rw [bind_ok] at h
          obtain ⟨value, -, h⟩ := h
          exact .inr ⟨page.runId, raw, value, hraw, (Except.ok.inj h).symm⟩

theorem advances_mergePage {state later : Shared} {receipt : Json}
    (hroom : ∀ runId raw, state.rawViews.get? runId = some raw → raw.generation + 1 < 2 ^ 64)
    (h : mergePage state receipt = .ok later) : Advances state later := by
  rcases mergePage_ok h with rfl | ⟨runId, raw, value, hheld, rfl⟩
  · exact .refl _
  · intro runId' raw' hheld'
    dsimp only
    rw [Table.get?_put]
    split
    · next heq =>
        subst heq
        obtain rfl : raw = raw' := Option.some.inj (hheld.symm.trans hheld')
        refine ⟨_, rfl, .inl ?_⟩
        show raw.generation < wrappingSucc raw.generation
        rw [wrappingSucc_of_lt (hroom _ _ hheld)]
        omega
    · exact ⟨raw', hheld', .inr ⟨rfl, .refl runId' state⟩⟩

/-- What a chunk does: the entry of its content is replaced, and the run gets the next
number if the content is no longer loading. -/
theorem mergeContent_ok {state later : Shared} {receipt : Json}
    (h : mergeContent sha256 state receipt = .ok later) :
    later = state ∨ ∃ key bytes, state.artifacts.get? key = some (.loading bytes) ∧
      ((∃ entry, later = settleContent state key entry) ∨
        ∃ more next, later =
          { state with
            artifacts := state.artifacts.put key (.loading more)
            contentRequests := state.contentRequests.put key next }) := by
  simp only [mergeContent, bind_ok] at h
  obtain ⟨chunk, -, h⟩ := h
  split at h
  · next bytes hloading =>
      refine .inr ⟨_, bytes, hloading, ?_⟩
      obtain rfl := Except.ok.inj h
      rw [mergeChunk]
      split
      · exact .inl ⟨_, rfl⟩
      · split
        · exact .inl ⟨_, rfl⟩
        · exact .inr ⟨_, _, rfl⟩
  · exact .inl (Except.ok.inj h).symm

theorem advances_mergeContent {state later : Shared} {receipt : Json}
    (hroom : ∀ runId raw, state.rawViews.get? runId = some raw → raw.generation + 1 < 2 ^ 64)
    (h : mergeContent sha256 state receipt = .ok later) : Advances state later := by
  rcases mergeContent_ok h with rfl | ⟨key, bytes, hloading, ⟨entry, rfl⟩ | ⟨more, next, rfl⟩⟩
  · exact .refl _
  · intro runId raw hheld
    simp only [settleContent, bumpViewGeneration, Table.get?_update]
    split
    · rw [hheld]
      refine ⟨_, rfl, .inl ?_⟩
      show raw.generation < wrappingSucc raw.generation
      rw [wrappingSucc_of_lt (hroom _ _ hheld)]
      omega
    · next hrun => exact ⟨raw, hheld, .inr ⟨rfl, sameReady_other rfl hrun⟩⟩
  · refine .of_keeps rfl (sameReady_put rfl fun content hready => ?_)
    rw [hloading] at hready
    cases hready

theorem advances_message {runs : RemoteRuns α} {message : ServerMessage} {later : Shared}
    (hfits : StepFits runs (.message message))
    (h : handleServerMessage sha256 runs.shared message = .ok later) :
    Advances runs.shared later := by
  obtain ⟨hroom, hstep⟩ := hfits
  cases message with
  | hello =>
      obtain rfl := Except.ok.inj h
      exact .refl _
  | runSnapshot runId revision payload =>
      cases runId with
      | none =>
          obtain rfl := Except.ok.inj h
          exact .refl _
      | some runId =>
          obtain rfl := Except.ok.inj h
          exact advances_storeSnapshot hstep.1 hstep.2
  | response outcome receipt =>
      rw [handleServerMessage.eq_def] at h
      dsimp only at h
      split at h
      · obtain rfl := Except.ok.inj h
        exact .refl _
      · split at h
        · obtain rfl := Except.ok.inj h
          exact .refl _
        · split at h
          · split at h
            · exact advances_mergePage hroom h
            · obtain rfl := Except.ok.inj h
              exact .refl _
          · exact advances_mergeContent hroom h
          · obtain rfl := Except.ok.inj h
            exact .refl _

/-! ## The invariant -/

/-- A decoded view belongs to a snapshot that is held, and with the number of the snapshot
it is the view of it. -/
def Current (sha256 : Bytes → Vector UInt8 32) (decoder : ViewDecoder α) (runs : RemoteRuns α) :
    Prop :=
  ∀ runId view, runs.decoded.get? runId = some view →
    ∃ raw, runs.shared.rawViews.get? runId = some raw ∧ view.generation ≤ raw.generation ∧
      (view.generation = raw.generation →
        decodeView decoder raw.viewRevision raw.generation raw.value
          (viewContent sha256 runs.shared runId raw.value).1 = .ready view)

/-- Views that stay, over snapshots that stay or rise. -/
theorem Current.keep {runs later : RemoteRuns α} (h : Current sha256 decoder runs)
    (hkeep : ∀ runId view, later.decoded.get? runId = some view →
      runs.decoded.get? runId = some view ∧
        ∀ raw, runs.shared.rawViews.get? runId = some raw →
          ∃ raw', later.shared.rawViews.get? runId = some raw' ∧
            (raw.generation < raw'.generation ∨
              raw' = raw ∧ SameReady runId runs.shared later.shared)) :
    Current sha256 decoder later := by
  intro runId view hview
  obtain ⟨hbefore, hraw⟩ := hkeep runId view hview
  obtain ⟨raw, hheld, hle, hdecode⟩ := h runId view hbefore
  obtain ⟨raw', hheld', hrises | ⟨rfl, hready⟩⟩ := hraw raw hheld
  · exact ⟨raw', hheld', by omega, fun heq => by omega⟩
  · refine ⟨raw', hheld', hle, fun heq => ?_⟩
    have hbefore := hdecode heq
    rw [(viewContent_settled (settled_of_ready hbefore).1).2 later.shared hready.1]
    exact hbefore

theorem Current.advance {runs : RemoteRuns α} {later : Shared} (h : Current sha256 decoder runs)
    (hadvances : Advances runs.shared later) :
    Current sha256 decoder { runs with shared := later } :=
  h.keep fun runId _ hview => ⟨hview, fun raw hheld => hadvances runId raw hheld⟩

/-! ## Leaving a run -/

theorem get?_discarded (shared : Shared) (left runId : String) :
    (discardRunState shared left).rawViews.get? runId =
      if runId = left then none else shared.rawViews.get? runId :=
  Table.get?_erase left runId shared.rawViews

theorem sameReady_discard {shared : Shared} {left runId : String} (h : runId ≠ left) :
    SameReady runId shared (discardRunState shared left) := by
  have hsame : ∀ path, (discardRunState shared left).artifacts.get? (runId, path) =
      shared.artifacts.get? (runId, path) := by
    intro path
    rw [discardRunState, Table.get?_deleteWhere]
    cases shared.artifacts.get? (runId, path) with
    | none => rfl
    | some entry => simp [h]
  exact ⟨fun path content hready => (hsame path).trans hready,
    fun path content hready => (hsame path).symm.trans hready⟩

theorem current_leave {runs : RemoteRuns α} (h : Current sha256 decoder runs) (left : String) :
    Current sha256 decoder (runs.leave left) := by
  refine h.keep fun runId view hview => ?_
  have hne : runId ≠ left := by
    rintro rfl
    rw [RemoteRuns.leave, Table.get?_erase, if_pos rfl] at hview
    cases hview
  rw [RemoteRuns.leave, Table.get?_erase, if_neg hne] at hview
  refine ⟨hview, fun raw hheld => ⟨raw, ?_, .inr ⟨rfl, sameReady_discard hne⟩⟩⟩
  rw [RemoteRuns.leave, get?_discarded, if_neg hne]
  exact hheld

theorem current_watch {runs : RemoteRuns α} (h : Current sha256 decoder runs) (runId : String) :
    Current sha256 decoder (runs.watch runId) := by
  have hleft : ∀ (left : List String) (runs : RemoteRuns α), Current sha256 decoder runs →
      Current sha256 decoder (left.foldl RemoteRuns.leave runs) := by
    intro left
    induction left with
    | nil => exact fun runs hruns => hruns
    | cons old rest ih => exact fun runs hruns => ih _ (current_leave hruns old)
  exact (hleft _ runs h).advance (.of_keeps rfl fun runId => .refl runId _)

/-! ## Viewing a run -/

variable (sha256 decoder) in
/-- What `view` does: it finds no snapshot, serves what it has, or decodes. -/
theorem view_cases (runs : RemoteRuns α) (runId : String) :
    (runs.shared.rawViews.get? runId = none ∧ runs.view sha256 decoder runId =
      (none, { runs with
        decoded := runs.decoded.erase runId
        decodeStates := runs.decodeStates.erase runId })) ∨
    (∃ states, runs.view sha256 decoder runId =
      (runs.decoded.get? runId, { runs with decodeStates := states })) ∨
    ∃ raw, runs.shared.rawViews.get? runId = some raw ∧
      (∀ view, runs.decoded.get? runId = some view → view.generation ≠ raw.generation) ∧
      runs.view sha256 decoder runId =
        let later := RemoteRuns.keepOutcome
          { runs with shared := (viewContent sha256 runs.shared runId raw.value).2 } runId
          raw.generation (decodeView decoder raw.viewRevision raw.generation raw.value
            (viewContent sha256 runs.shared runId raw.value).1)
        (later.decoded.get? runId, later) := by
  cases hheld : runs.shared.rawViews.get? runId with
  | none =>
      refine .inl ⟨rfl, ?_⟩
      rw [RemoteRuns.view, hheld]
  | some raw =>
      rw [RemoteRuns.view, hheld]
      dsimp only
      split
      · exact .inr (.inl ⟨_, rfl⟩)
      · next hother =>
          split
          · exact .inr (.inl ⟨_, rfl⟩)
          · refine .inr (.inr ⟨raw, rfl, fun view hview heq => hother ?_, rfl⟩)
            rw [hview]
            simpa using heq

variable (sha256) in
theorem artifactContent_frame (state : Shared) (runId : String) (artifact : Option ArtifactRef)
    (types : List String) (label : String) :
    (artifactContent sha256 state runId artifact types label).2.rawViews = state.rawViews ∧
      (∀ other, other ≠ runId →
        SameReady other state (artifactContent sha256 state runId artifact types label).2) ∧
      KeepsReady runId (artifactContent sha256 state runId artifact types label).2 state := by
  have hsame : ∀ other, other ≠ runId → SameReady other state state := fun other _ => .refl other _
  have hput : ∀ {later : Shared} {path : String} {entry : ArtifactEntry},
      later.artifacts = state.artifacts.put (runId, path) entry →
      (∀ content, entry ≠ .ready content) → KeepsReady runId later state := by
    intro later path entry hartifacts hentry path' content hready
    rw [hartifacts, Table.get?_put] at hready
    split at hready
    · exact absurd (Option.some.inj hready) (hentry content)
    · exact hready
  cases artifact with
  | none => exact ⟨rfl, hsame, (SameReady.refl runId state).1⟩
  | some artifact =>
      simp only [artifactContent, referencedContent]
      split
      · split
        · exact ⟨rfl, hsame, (SameReady.refl runId state).1⟩
        · exact ⟨rfl, fun other hother => sameReady_other rfl hother, hput rfl (by simp)⟩
      · exact ⟨rfl, hsame, (SameReady.refl runId state).1⟩
      · exact ⟨rfl, hsame, (SameReady.refl runId state).1⟩
      · exact ⟨rfl, fun other hother => sameReady_other rfl hother, hput rfl (by simp)⟩

theorem KeepsReady.trans {runId : String} {first second third : Shared}
    (h : KeepsReady runId first second) (h' : KeepsReady runId second third) :
    KeepsReady runId first third := fun path content hready => h' _ _ (h path content hready)

theorem SameReady.trans {runId : String} {first second third : Shared}
    (h : SameReady runId first second) (h' : SameReady runId second third) :
    SameReady runId first third := ⟨h.1.trans h'.1, h'.2.trans h.2⟩

variable (sha256) in
/-- Looking for the contents of a run changes no snapshot and no content of another run,
and makes none ready. -/
theorem viewContent_frame (state : Shared) (runId : String) (raw : Json) :
    (viewContent sha256 state runId raw).2.rawViews = state.rawViews ∧
      (∀ other, other ≠ runId →
        SameReady other state (viewContent sha256 state runId raw).2) ∧
      KeepsReady runId (viewContent sha256 state runId raw).2 state := by
  simp only [viewContent]
  obtain ⟨hraw, hsame, hback⟩ := artifactContent_frame sha256 state runId
    (workflowDefinitionArtifact raw) ["application/json"] "workflow definition"
  obtain ⟨hraw', hsame', hback'⟩ := artifactContent_frame sha256
    (artifactContent sha256 state runId (workflowDefinitionArtifact raw) ["application/json"]
      "workflow definition").2 runId
    (graphHistoryArtifact raw) ["application/json"] "workflow graph history"
  obtain ⟨hraw'', hsame'', hback''⟩ := artifactContent_frame sha256 _ runId
    (displayReasonArtifact raw) ["text/plain", "application/json"] "workflow display reason"
  exact ⟨hraw''.trans (hraw'.trans hraw),
    fun other hother => ((hsame other hother).trans (hsame' other hother)).trans
      (hsame'' other hother),
    (hback''.trans hback').trans hback⟩

/-- The views of the other runs are not touched by an outcome. -/
theorem get?_keepOutcome {runs : RemoteRuns α} {runId other : String} {generation : Nat}
    {outcome : DecodeOutcome α} (h : other ≠ runId) :
    (runs.keepOutcome runId generation outcome).decoded.get? other = runs.decoded.get? other := by
  cases outcome with
  | ready view => exact Table.get?_put_ne h _ _
  | pendingContent => rfl
  | invalid reason =>
      rw [RemoteRuns.keepOutcome, Table.get?_erase, if_neg h]

@[simp] theorem shared_keepOutcome (runs : RemoteRuns α) (runId : String) (generation : Nat)
    (outcome : DecodeOutcome α) :
    (runs.keepOutcome runId generation outcome).shared = runs.shared := by
  cases outcome <;> rfl

/-- The view of the run that an outcome leaves is the one it decoded or the one before. -/
theorem get?_keepOutcome_self {runs : RemoteRuns α} {runId : String} {generation : Nat}
    {outcome : DecodeOutcome α} {view : RemoteView α}
    (h : (runs.keepOutcome runId generation outcome).decoded.get? runId = some view) :
    outcome = .ready view ∨ runs.decoded.get? runId = some view := by
  cases outcome with
  | ready decoded =>
      rw [RemoteRuns.keepOutcome, Table.get?_put_self, Option.some.injEq] at h
      exact .inl (h ▸ rfl)
  | pendingContent => exact .inr h
  | invalid reason =>
      rw [RemoteRuns.keepOutcome, Table.get?_erase, if_pos rfl] at h
      cases h

/-- A view that `view` decodes is the view of what is held then. -/
theorem current_view {runs : RemoteRuns α} (h : Current sha256 decoder runs) (runId : String) :
    Current sha256 decoder (runs.view sha256 decoder runId).2 := by
  rcases view_cases sha256 decoder runs runId with
    ⟨hnone, hview⟩ | ⟨states, hview⟩ | ⟨raw, hheld, hother, hview⟩
  all_goals rw [hview]
  · refine h.keep fun runId' view hdecoded => ?_
    rw [Table.get?_erase] at hdecoded
    split at hdecoded
    · cases hdecoded
    · exact ⟨hdecoded, fun raw hheld => ⟨raw, hheld, .inr ⟨rfl, .refl runId' _⟩⟩⟩
  · exact h.keep fun runId' view hdecoded =>
      ⟨hdecoded, fun raw hheld => ⟨raw, hheld, .inr ⟨rfl, .refl runId' _⟩⟩⟩
  · obtain ⟨hraw, hsame, -⟩ := viewContent_frame sha256 runs.shared runId raw.value
    intro other view hdecoded
    rw [shared_keepOutcome, hraw]
    by_cases hrun : other = runId
    · subst hrun
      refine ⟨raw, hheld, ?_⟩
      rcases get?_keepOutcome_self hdecoded with hready | hbefore
      · obtain ⟨hsettled, hgeneration⟩ := settled_of_ready hready
        rw [(viewContent_settled hsettled).1]
        exact ⟨Nat.le_of_eq hgeneration, fun _ => hready⟩
      · obtain ⟨raw', hheld', hle, -⟩ := h other view hbefore
        obtain rfl : raw = raw' := Option.some.inj (hheld.symm.trans hheld')
        exact ⟨hle, fun heq => absurd heq (hother view hbefore)⟩
    · rw [get?_keepOutcome hrun] at hdecoded
      obtain ⟨raw', hheld', hle, hdecode⟩ := h other view hdecoded
      refine ⟨raw', hheld', hle, fun heq => ?_⟩
      have hbefore := hdecode heq
      rw [(viewContent_settled (settled_of_ready hbefore).1).2 _ (hsame other hrun).1]
      exact hbefore

/-! ## Runs -/

theorem current_act {runs : RemoteRuns α} (h : Current sha256 decoder runs) {action : ClientAction}
    (hfits : StepFits runs action) : Current sha256 decoder (runs.act sha256 decoder action) := by
  cases action with
  | message message =>
      rw [RemoteRuns.act]
      split
      · next later hlater => exact h.advance (advances_message hfits hlater)
      · exact h
  | watch runId => exact current_watch h runId
  | requestPage runId kind cursor => exact h.advance (.of_keeps rfl fun runId => .refl runId _)
  | requestArtifact runId path =>
      have hadvances := advances_requestArtifact runs runId path
      rw [RemoteRuns.act]
      rw [RemoteRuns.requestArtifact] at hadvances ⊢
      split
      · exact h
      · next hfree =>
          rw [if_neg hfree] at hadvances
          exact h.advance hadvances
  | view runId => exact current_view h runId

/-- Every step of a run fits the state before it. -/
def RunFits (sha256 : Bytes → Vector UInt8 32) (decoder : ViewDecoder α)
    (actions : List ClientAction) : Prop :=
  ∀ before action after, actions = before ++ action :: after →
    StepFits (RemoteRuns.acts sha256 decoder {} before) action

theorem acts_concat (actions : List ClientAction) (action : ClientAction) :
    RemoteRuns.acts sha256 decoder {} (actions ++ [action]) =
      (RemoteRuns.acts sha256 decoder {} actions).act sha256 decoder action := by
  rw [RemoteRuns.acts, List.foldl_append]
  rfl

theorem current_acts {actions : List ClientAction} (hfits : RunFits sha256 decoder actions) :
    Current sha256 decoder (RemoteRuns.acts sha256 decoder {} actions) := by
  induction actions using List.reverseRecOn with
  | nil => exact fun runId view hview => by cases hview
  | append_singleton actions action ih =>
      rw [acts_concat]
      refine current_act (ih fun before a after heq => ?_) (hfits actions action [] rfl)
      exact hfits before a (after ++ [action]) (by rw [heq, List.append_assoc]; rfl)

/-- What is held later is held before, with all its contents that are there. -/
def HeldBefore (state later : Shared) : Prop :=
  ∀ runId raw, later.rawViews.get? runId = some raw →
    state.rawViews.get? runId = some raw ∧ KeepsReady runId later state

theorem HeldBefore.refl (state : Shared) : HeldBefore state state :=
  fun runId _ hheld => ⟨hheld, (SameReady.refl runId state).1⟩

theorem heldBefore_leave (runs : RemoteRuns α) (left : String) :
    HeldBefore runs.shared (runs.leave left).shared := by
  intro runId raw hheld
  rw [RemoteRuns.leave, get?_discarded] at hheld
  split at hheld
  · cases hheld
  · next hne => exact ⟨hheld, (sameReady_discard hne).2⟩

theorem heldBefore_watch (runs : RemoteRuns α) (runId : String) :
    HeldBefore runs.shared (runs.watch runId).shared := by
  have hleft : ∀ (left : List String) (runs : RemoteRuns α),
      HeldBefore runs.shared (left.foldl RemoteRuns.leave runs).shared := by
    intro left
    induction left with
    | nil => exact fun runs => .refl _
    | cons old rest ih =>
        intro runs runId raw hheld
        obtain ⟨hmid, hkeeps⟩ := ih _ runId raw hheld
        obtain ⟨hbefore, hkeeps'⟩ := heldBefore_leave runs old runId raw hmid
        exact ⟨hbefore, hkeeps.trans hkeeps'⟩
  exact hleft _ runs

theorem heldBefore_view (runs : RemoteRuns α) (runId : String) :
    HeldBefore runs.shared (runs.view sha256 decoder runId).2.shared := by
  rcases view_cases sha256 decoder runs runId with
    ⟨-, hview⟩ | ⟨states, hview⟩ | ⟨raw, -, -, hview⟩
  all_goals rw [hview]
  · exact .refl _
  · exact .refl _
  · intro other raw' hheld
    rw [shared_keepOutcome] at hheld ⊢
    obtain ⟨hraw, hsame, hback⟩ := viewContent_frame sha256 runs.shared runId raw.value
    rw [hraw] at hheld
    refine ⟨hheld, ?_⟩
    by_cases hrun : other = runId
    · exact hrun ▸ hback
    · exact (hsame other hrun).2

/-- A snapshot that is held before and after a step is the same and no content of its run
has come, or it has got a higher number. -/
def Rises (sha256 : Bytes → Vector UInt8 32) (decoder : ViewDecoder α) (runs : RemoteRuns α)
    (action : ClientAction) : Prop :=
  ∀ runId raw raw', runs.shared.rawViews.get? runId = some raw →
    (runs.act sha256 decoder action).shared.rawViews.get? runId = some raw' →
    raw.generation < raw'.generation ∨
      raw' = raw ∧ KeepsReady runId (runs.act sha256 decoder action).shared runs.shared

theorem rises_of_advances {runs : RemoteRuns α} {action : ClientAction}
    (h : Advances runs.shared (runs.act sha256 decoder action).shared) :
    Rises sha256 decoder runs action := by
  intro runId raw raw' hheld hheld'
  obtain ⟨raw'', hheld'', hrises⟩ := h runId raw hheld
  obtain rfl : raw' = raw'' := Option.some.inj (hheld'.symm.trans hheld'')
  exact hrises.imp id fun hsame => ⟨hsame.1, hsame.2.2⟩

theorem rises_of_heldBefore {runs : RemoteRuns α} {action : ClientAction}
    (h : HeldBefore runs.shared (runs.act sha256 decoder action).shared) :
    Rises sha256 decoder runs action := by
  intro runId raw raw' hheld hheld'
  obtain ⟨hbefore, hkeeps⟩ := h runId raw' hheld'
  exact .inr ⟨Option.some.inj (hbefore.symm.trans hheld), hkeeps⟩

theorem rises_of_fits {runs : RemoteRuns α} {action : ClientAction} (hfits : StepFits runs action) :
    Rises sha256 decoder runs action := by
  cases action with
  | message message =>
      refine rises_of_advances ?_
      rw [RemoteRuns.act]
      split
      · next later hlater => exact advances_message hfits hlater
      · exact .refl _
  | watch runId => exact rises_of_heldBefore (heldBefore_watch runs runId)
  | requestPage runId kind cursor =>
      exact rises_of_advances (.of_keeps rfl fun runId => .refl runId _)
  | requestArtifact runId path => exact rises_of_advances (advances_requestArtifact runs runId path)
  | view runId => exact rises_of_heldBefore (heldBefore_view runs runId)

/-- In a run where every snapshot gets a number above the one that is held, a view with the
number of the snapshot is the view of the snapshot and the contents that are held, and what
changes a snapshot or completes a content raises the number. -/
theorem servedView_current (sha256 : Bytes → Vector UInt8 32) (decoder : ViewDecoder α)
    (actions : List ClientAction) (hfits : RunFits sha256 decoder actions) :
    let runs := RemoteRuns.acts sha256 decoder {} actions
    (∀ runId view raw, (runs.view sha256 decoder runId).1 = some view →
      runs.shared.rawViews.get? runId = some raw → view.generation = raw.generation →
      decodeView decoder raw.viewRevision raw.generation raw.value
        (viewContent sha256 runs.shared runId raw.value).1 = .ready view) ∧
      ∀ action, StepFits runs action → Rises sha256 decoder runs action := by
  intro runs
  have hcurrent : Current sha256 decoder runs := current_acts hfits
  refine ⟨fun runId view raw hview hheld heq => ?_, fun action hstep => rises_of_fits hstep⟩
  have hserved : ∀ view, runs.decoded.get? runId = some view → view.generation = raw.generation →
      decodeView decoder raw.viewRevision raw.generation raw.value
        (viewContent sha256 runs.shared runId raw.value).1 = .ready view := by
    intro view hdecoded heq
    obtain ⟨raw', hheld', -, hdecode⟩ := hcurrent runId view hdecoded
    obtain rfl : raw = raw' := Option.some.inj (hheld.symm.trans hheld')
    exact hdecode heq
  rcases view_cases sha256 decoder runs runId with
    ⟨hnone, hserve⟩ | ⟨states, hserve⟩ | ⟨raw', hheld', hother, hserve⟩
  all_goals rw [hserve] at hview
  · cases hview
  · exact hserved view hview heq
  · obtain rfl : raw = raw' := Option.some.inj (hheld.symm.trans hheld')
    rcases get?_keepOutcome_self hview with hready | hbefore
    · exact hready
    · exact absurd heq (hother view hbefore)

/-! A page raises the number of a snapshot to the one the next snapshot gets. -/

/-- A decoder that takes the whole snapshot. -/
def wholeDecoder : ViewDecoder Json where
  required _ := .ok .unit
  fields _ raw _ := .ok raw

theorem fields_of_ready {revision generation : Nat} {raw : Json} {content : ViewContent}
    {view : RemoteView Json}
    (h : decodeView wholeDecoder revision generation raw content = .ready view) :
    view.fields = raw := by
  simp only [decodeView, wholeDecoder] at h
  split at h
  · cases h
  · split at h
    · cases h
    · cases h
      rfl

def noDigest (_ : Bytes) : Vector UInt8 32 :=
  .replicate 32 0

def snapshotOf (revision : Nat) : ServerMessage :=
  .runSnapshot (some "run") (some revision) (.obj [("revision", .num (.ofNat revision))])

def tracePage : ServerMessage :=
  .response "accepted" (some (.obj
    [("schema", .str "pi-workflows.run-page.v1"), ("runId", .str "run"), ("kind", .str "trace"),
      ("cursor", .num (.ofNat 0)), ("revision", .num (.ofNat 1)), ("items", .arr [])]))

/-- The runs after two snapshots, with a page between them. -/
def pagedRuns : RemoteRuns Json :=
  RemoteRuns.acts noDigest wholeDecoder {}
    [.watch "run", .message (snapshotOf 1), .requestPage "run" .trace 0, .message tracePage,
      .view "run", .message (snapshotOf 2)]

theorem staleView_served : ∃ view raw,
    (pagedRuns.view noDigest wholeDecoder "run").1 = some view ∧
      pagedRuns.shared.rawViews.get? "run" = some raw ∧ view.generation = raw.generation ∧
      decodeView wholeDecoder raw.viewRevision raw.generation raw.value
        (viewContent noDigest pagedRuns.shared "run" raw.value).1 ≠ .ready view := by
  have hnumbers : (pagedRuns.view noDigest wholeDecoder "run").1.map (fun view => view.generation) =
        some 2 ∧ (pagedRuns.shared.rawViews.get? "run").map (fun raw => raw.generation) = some 2 ∧
      (pagedRuns.view noDigest wholeDecoder "run").1.map (fun view => view.fields) ≠
        (pagedRuns.shared.rawViews.get? "run").map (fun raw => raw.value) := by
    decide +kernel
  obtain ⟨hview, hraw, hfields⟩ := hnumbers
  obtain ⟨view, hview', hgeneration⟩ := Option.map_eq_some_iff.1 hview
  obtain ⟨raw, hraw', hgeneration'⟩ := Option.map_eq_some_iff.1 hraw
  refine ⟨view, raw, hview', hraw', hgeneration.trans hgeneration'.symm, fun hready => ?_⟩
  rw [hview', hraw', Option.map_some, Option.map_some, fields_of_ready hready] at hfields
  exact hfields rfl

/-- Numbers that leave room for any next step. -/
def HasRoom (runs : RemoteRuns Json) : Prop :=
  runs.shared.nextViewGeneration + 1 < 2 ^ 64 ∧
    ∀ e ∈ runs.shared.rawViews.rows, e.2.generation ≤ runs.shared.nextViewGeneration

theorem stepFits_of_room {runs : RemoteRuns Json} (h : HasRoom runs) (action : ClientAction) :
    StepFits runs action := by
  obtain ⟨hnext, hrows⟩ := h
  have hheld : ∀ runId raw, runs.shared.rawViews.get? runId = some raw →
      raw.generation ≤ runs.shared.nextViewGeneration := fun runId raw hheld =>
    hrows (runId, raw) (Table.mem_rows.2 hheld)
  refine ⟨fun runId raw hraw => ?_, ?_⟩
  · have hle := hheld runId raw hraw
    omega
  · split
    · exact ⟨hnext, fun raw hraw => hheld _ raw hraw⟩
    · trivial

/-- Two snapshots, each of them viewed. -/
def viewedActions : List ClientAction :=
  [.watch "run", .message (snapshotOf 1), .view "run", .message (snapshotOf 2), .view "run"]

def viewedRuns : RemoteRuns Json :=
  RemoteRuns.acts noDigest wholeDecoder {} viewedActions

theorem viewedActions_fit : RunFits noDigest wholeDecoder viewedActions := by
  have hroom : ∀ n < 5,
      (RemoteRuns.acts noDigest wholeDecoder {} (viewedActions.take n)).shared.nextViewGeneration +
          1 < 2 ^ 64 ∧
        ∀ e ∈ (RemoteRuns.acts noDigest wholeDecoder {}
          (viewedActions.take n)).shared.rawViews.rows, e.2.generation ≤
            (RemoteRuns.acts noDigest wholeDecoder {}
              (viewedActions.take n)).shared.nextViewGeneration := by
    decide +kernel
  intro before action after heq
  have hlength : before.length < 5 := by
    have htotal := congrArg List.length heq
    rw [List.length_append, List.length_cons] at htotal
    have hfive : viewedActions.length = 5 := rfl
    omega
  have hbefore : before = viewedActions.take before.length := by
    rw [heq, List.take_left]
  rw [hbefore]
  exact stepFits_of_room (hroom before.length hlength) action

theorem viewedRuns_current : ∃ view raw,
    (viewedRuns.view noDigest wholeDecoder "run").1 = some view ∧
      viewedRuns.shared.rawViews.get? "run" = some raw ∧
      decodeView wholeDecoder raw.viewRevision raw.generation raw.value
        (viewContent noDigest viewedRuns.shared "run" raw.value).1 = .ready view := by
  have hnumbers : (viewedRuns.view noDigest wholeDecoder "run").1.map
        (fun view => view.generation) = some 2 ∧
      (viewedRuns.shared.rawViews.get? "run").map (fun raw => raw.generation) = some 2 := by
    decide +kernel
  obtain ⟨view, hview, hgeneration⟩ := Option.map_eq_some_iff.1 hnumbers.1
  obtain ⟨raw, hraw, hgeneration'⟩ := Option.map_eq_some_iff.1 hnumbers.2
  exact ⟨view, raw, hview, hraw, (servedView_current noDigest wholeDecoder viewedActions
    viewedActions_fit).1 "run" view raw hview hraw (hgeneration.trans hgeneration'.symm)⟩

end PiWorkflows.Tui
