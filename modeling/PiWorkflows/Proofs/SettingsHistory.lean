import PiWorkflows.Proofs.PatchReplay
import PiWorkflows.Workflows.SettingsChange

/-!
# The history of a settings scope is a chain

Calls of `changeSettings` interleave turn by turn. Only one of their turns
writes, the transaction of `commitSettingsChange`, and its fence is the revision
the call read. The invariant has two halves. A store is `Chained`: the changes of
a scope carry the numbers one to the revision, each starts at the value the one
before ended in, and each replays. A call that waits holds a row whose revision
the scope has not fallen behind, and if the revision is still the same then so is
the value (`CallFits`), which is what makes the fence enough: no digest has to be
injective for the history to be a chain.

Injectivity is used once, where a repeat with other content has to be told from
the first request by its digest.
-/

namespace PiWorkflows

open Fallible

/-! ## Chains -/

/-- The changes carry the numbers after the given one up to the last, and each
starts at the value the one before ended in. -/
def ChainedFrom : Nat → Json → List SettingsChangeRow → Nat → Json → Prop
  | number, value, [], last, current => last = number ∧ current = value
  | number, value, change :: rest, last, current =>
      change.changeNumber = number + 1 ∧ change.before = value ∧
        ChainedFrom (number + 1) change.after rest last current

theorem chainedFrom_append {number last : Nat} {value current : Json}
    {changes : List SettingsChangeRow} {change : SettingsChangeRow}
    (h : ChainedFrom number value changes last current)
    (hnumber : change.changeNumber = last + 1) (hbefore : change.before = current) :
    ChainedFrom number value (changes ++ [change]) (last + 1) change.after := by
  induction changes generalizing number value with
  | nil =>
      obtain ⟨rfl, rfl⟩ := h
      exact ⟨hnumber, hbefore, rfl, rfl⟩
  | cons first rest ih =>
      obtain ⟨hfirst, hvalue, hrest⟩ := h
      exact ⟨hfirst, hvalue, ih hrest⟩

/-- The numbers of a chain grow, and stay between its ends. -/
theorem chainedFrom_numbers {number last : Nat} {value current : Json}
    {changes : List SettingsChangeRow} (h : ChainedFrom number value changes last current) :
    (∀ c ∈ changes, number < c.changeNumber ∧ c.changeNumber ≤ last) ∧ number ≤ last ∧
      changes.Pairwise fun a b => a.changeNumber < b.changeNumber := by
  induction changes generalizing number value with
  | nil =>
      obtain ⟨rfl, -⟩ := h
      exact ⟨by simp, Nat.le_refl _, .nil⟩
  | cons first rest ih =>
      obtain ⟨hfirst, -, hrest⟩ := h
      obtain ⟨hbounds, hle, hpairwise⟩ := ih hrest
      refine ⟨?_, by omega, List.pairwise_cons.2 ⟨?_, hpairwise⟩⟩
      · intro c hc
        rcases List.mem_cons.1 hc with rfl | hc
        · omega
        · have := hbounds c hc
          omega
      · intro c hc
        have := hbounds c hc
        omega

/-- A change that replays on any document equal to the one it was made on. -/
def Replays (change : SettingsChangeRow) : Prop :=
  ∀ document, SameJson change.before document →
    ∃ result, applyJsonPatch document change.patch = .ok result ∧ SameJson change.after result

/-- The replay of a chain ends in its value, and passes every check on the way. -/
theorem replayChanges_chained (sha256 : String → String) (scopeId : String) {number last : Nat}
    {value current document : Json} {changes : List SettingsChangeRow}
    (h : ChainedFrom number value changes last current) (hreplays : ∀ c ∈ changes, Replays c)
    (hsame : SameJson value document) :
    ∃ result,
      replayChanges sha256 scopeId (document, jsonHash sha256 document, number + 1) changes =
        .ok (result, jsonHash sha256 result, last + 1) ∧ SameJson current result := by
  induction changes generalizing number value document with
  | nil =>
      obtain ⟨rfl, rfl⟩ := h
      exact ⟨document, rfl, hsame⟩
  | cons change rest ih =>
      obtain ⟨hnumber, hbefore, hrest⟩ := h
      obtain ⟨next, happlied, hnext⟩ := hreplays change List.mem_cons_self document (hbefore ▸ hsame)
      obtain ⟨result, hreplay, hresult⟩ :=
        ih hrest (fun c hc => hreplays c (List.mem_cons_of_mem _ hc)) hnext
      refine ⟨result, ?_, hresult⟩
      have hold : jsonHash sha256 change.before = jsonHash sha256 document := by
        rw [jsonHash, canonicalJson_eq_iff_same.2 (hbefore ▸ hsame)]
        rfl
      have hnew : jsonHash sha256 next = jsonHash sha256 change.after := by
        rw [jsonHash, ← canonicalJson_eq_iff_same.2 hnext]
        rfl
      simp only [replayChanges, bind_ok, require_ok, mapError_ok]
      exact ⟨.unit, hnumber, .unit, hold, next, happlied, .unit, hnew, hreplay⟩

/-! ## The invariant of a store -/

/-- The changes of a scope, in the order they were accepted. -/
def changesOf (store : SettingsStore) (scopeId : String) : List SettingsChangeRow :=
  store.changes.filter fun change => change.scopeId = scopeId

/-- A row was stored for a request that passed its checks. -/
structure StoredChange (change : SettingsChangeRow) : Prop where
  replays : Replays change
  requestId : isStableIdentifier change.requestId = true
  source : isBlank change.source = false ∧ utf16Length change.source ≤ 128
  patch : ∃ patch, validateJsonPatch change.patch = .ok patch
  canonical : normalizeJson change.patch = change.patch

structure SettingsStore.Chained (store : SettingsStore) : Prop where
  chain : ∀ scopeId row, store.scopes.get? scopeId = some row →
    ChainedFrom 0 row.initial (changesOf store scopeId) row.revision row.current
  hasScope : ∀ change ∈ store.changes, (store.scopes.get? change.scopeId).isSome = true
  stored : ∀ change ∈ store.changes, StoredChange change
  requestOnce : store.changes.Pairwise fun a b =>
    ¬ (a.scopeId = b.scopeId ∧ a.requestId = b.requestId)

/-- A store whose scopes nobody has changed. -/
structure SettingsStore.Fresh (store : SettingsStore) : Prop where
  scopes : ∀ scopeId row, store.scopes.get? scopeId = some row →
    row.revision = 0 ∧ row.current = row.initial
  changes : store.changes = []

theorem SettingsStore.Fresh.chained {store : SettingsStore} (h : store.Fresh) : store.Chained where
  chain := by
    intro scopeId row hrow
    obtain ⟨hrevision, hcurrent⟩ := h.scopes scopeId row hrow
    rw [changesOf, h.changes]
    exact ⟨hrevision, hcurrent⟩
  hasScope := by simp [h.changes]
  stored := by simp [h.changes]
  requestOnce := by simp [h.changes]

/-- Reading the changes by number reads them in the order they were accepted. -/
theorem settingsHistory_eq {store : SettingsStore} (h : store.Chained) {scopeId : String}
    {row : SettingsScopeRow} (hrow : store.scopes.get? scopeId = some row) :
    settingsHistory store scopeId = changesOf store scopeId := by
  have hpairwise := (chainedFrom_numbers (h.chain scopeId row hrow)).2.2
  refine List.mergeSort_of_pairwise (hpairwise.imp ?_)
  intro a b hlt
  simpa using Nat.le_of_lt hlt

theorem verifyScope_chained {sha256 : String → String} {store : SettingsStore} (h : store.Chained)
    {scopeId : String} {row : SettingsScopeRow} (hrow : store.scopes.get? scopeId = some row) :
    verifyScope sha256 store scopeId row = .ok .unit := by
  have hreplays : ∀ c ∈ changesOf store scopeId, Replays c := fun c hc =>
    (h.stored c (List.mem_of_mem_filter hc)).replays
  obtain ⟨result, hreplay, hsame⟩ := replayChanges_chained sha256 scopeId
    (h.chain scopeId row hrow) hreplays (SameJson.refl row.initial)
  simp only [verifyScope, bind_ok, require_ok, Prod.exists, settingsHistory_eq h hrow]
  refine ⟨result, jsonHash sha256 result, row.revision + 1, hreplay, by omega, ?_⟩
  rw [jsonHash, canonicalJson_eq_iff_same.2 hsame]
  rfl

theorem verifySettingsProjections_chained {sha256 : String → String} {store : SettingsStore}
    (h : store.Chained) (runId : String) :
    verifySettingsProjections sha256 store runId = .ok .unit :=
  forM_ok.2 fun _ he => verifyScope_chained h (Table.mem_rows.1 (List.mem_of_mem_filter he))

/-! ## Writes -/

/-- The store only grows: scopes stay, no revision falls, a scope at the same
revision has the same value, and changes are appended. -/
structure Extends (before after : SettingsStore) : Prop where
  scopes : ∀ scopeId row, before.scopes.get? scopeId = some row →
    ∃ row', after.scopes.get? scopeId = some row' ∧ row.revision ≤ row'.revision ∧
      (row.revision = row'.revision → row.current = row'.current)
  changes : ∃ added, after.changes = before.changes ++ added

theorem Extends.refl (store : SettingsStore) : Extends store store :=
  ⟨fun _ row hrow => ⟨row, hrow, Nat.le_refl _, fun _ => rfl⟩, [], by simp⟩

/-- A write of other tables. -/
theorem Extends.of_eq {before after : SettingsStore} (hscopes : after.scopes = before.scopes)
    (hchanges : after.changes = before.changes) : Extends before after :=
  ⟨fun _ row hrow => ⟨row, hscopes ▸ hrow, Nat.le_refl _, fun _ => rfl⟩, [], by simp [hchanges]⟩

theorem chained_of_eq {before after : SettingsStore} (hscopes : after.scopes = before.scopes)
    (hchanges : after.changes = before.changes) (h : before.Chained) : after.Chained where
  chain := by
    intro scopeId row hrow
    rw [changesOf, hchanges]
    exact h.chain scopeId row (hscopes ▸ hrow)
  hasScope := by
    rw [hscopes, hchanges]
    exact h.hasScope
  stored := hchanges ▸ h.stored
  requestOnce := hchanges ▸ h.requestOnce

/-- A new scope starts with no changes. -/
theorem ensureSettingsScope_chained {store store' : SettingsStore} {runId mountPath : String}
    {invocation : Nat} {settings : Json} {now : Int} (h : store.Chained)
    (hensure : ensureSettingsScope store runId mountPath invocation settings now = .ok store') :
    store'.Chained ∧ Extends store store' := by
  simp only [ensureSettingsScope, bind_ok] at hensure
  obtain ⟨_, -, scopeId, -, hensure⟩ := hensure
  split at hensure
  · simp only [bind_ok, pure_ok] at hensure
    obtain ⟨_, -, rfl⟩ := hensure
    exact ⟨h, .refl store⟩
  · next hnone =>
      simp only [bind_ok, orThrow_ok, pure_ok] at hensure
      obtain ⟨scopes, hinsert, rfl⟩ := hensure
      obtain ⟨-, hget⟩ := Table.get?_of_insert? hinsert
      have hkeep : ∀ id row, store.scopes.get? id = some row → scopes.get? id = some row := by
        intro id row hrow
        rw [hget, if_neg, hrow]
        rintro rfl
        rw [hnone] at hrow
        cases hrow
      refine ⟨⟨?_, ?_, h.stored, h.requestOnce⟩, ⟨?_, [], by simp⟩⟩
      · intro id row hrow
        rw [hget] at hrow
        split at hrow
        · next hid =>
            cases hrow
            subst hid
            have hempty : changesOf store id = [] := by
              rw [changesOf, List.filter_eq_nil_iff]
              intro c hc hid
              have hscope := h.hasScope c hc
              rw [of_decide_eq_true hid, hnone] at hscope
              cases hscope
            show ChainedFrom 0 _ (changesOf store id) _ _
            rw [hempty]
            exact ⟨rfl, rfl⟩
        · exact h.chain id row hrow
      · intro c hc
        obtain ⟨row, hrow⟩ := Option.isSome_iff_exists.1 (h.hasScope c hc)
        exact Option.isSome_iff_exists.2 ⟨row, hkeep _ row hrow⟩
      · intro id row hrow
        exact ⟨row, hkeep id row hrow, Nat.le_refl _, fun _ => rfl⟩

/-- What a commit found and what it did. -/
theorem commitSettingsChange_ok {sha256 : String → String} {store store' : SettingsStore}
    {request : SettingsChangeRequest} {read : SettingsScopeRow} {applied : AppliedSettings}
    {changeId : String} {now : Int}
    (h : commitSettingsChange sha256 store request read applied changeId now = .ok store') :
    ∃ row, store.scopes.get? request.scopeId = some row ∧ row.revision = read.revision ∧
      (∀ c ∈ store.changes, ¬ (c.scopeId = request.scopeId ∧ c.requestId = request.requestId)) ∧
        store'.changes = store.changes ++ [committedChange request read applied changeId now] ∧
          ∀ scopeId, store'.scopes.get? scopeId =
            if scopeId = request.scopeId then
              (store.scopes.get? scopeId).map fun scope =>
                { scope with current := storedJson applied.json, revision := scope.revision + 1
                             updatedAt := now }
            else store.scopes.get? scopeId := by
  simp only [commitSettingsChange, insertSettingsChange, bind_ok, orThrow_ok, require_ok,
    pure_ok] at h
  obtain ⟨row, hrow, _, hrevision, _, -, _, -, _, -, changes, ⟨_, hfresh, rfl⟩, rfl⟩ := h
  exact ⟨row, hrow, hrevision, fun c hc => (hfresh c hc).2.1, rfl, fun scopeId =>
    Table.get?_update _ _ _ _⟩

/-- The value an accepted patch leads to. -/
theorem applyWorkflowSettingsPatch_ok {definition : SettingsDefinition} {before value : Json}
    {actor : MutationActor} {source : String} {applied : AppliedSettings}
    (h : applyWorkflowSettingsPatch definition before value actor source = .ok applied) :
    validateJsonPatch value = .ok applied.patch ∧
      ∃ current, applied.patch.foldlM applyJsonPatchOperation before = .ok current ∧
        byteLength (canonicalJson current) ≤ maxWorkflowSettingsBytes ∧
          SameJson current applied.json := by
  simp only [applyWorkflowSettingsPatch, assertSettingsSize, bind_ok, require_ok, pure_ok] at h
  obtain ⟨patch, hpatch, current, hcurrent, _, hsize, normalized, -, _, -, _, hequal, _, -, rfl⟩ := h
  refine ⟨hpatch, current, ?_, hsize, (canonicalJson_eq_iff_same.1 hequal).symm⟩
  clear hpatch hsize hequal
  show patch.foldlM applyJsonPatchOperation before = .ok current
  induction patch generalizing before with
  | nil => exact hcurrent
  | cons operation rest ih =>
      simp only [List.foldlM_cons, bind_ok, authorizedStep] at hcurrent ⊢
      obtain ⟨next, ⟨_, -, hnext⟩, hrest⟩ := hcurrent
      exact ⟨next, hnext, ih hrest⟩

theorem checkSettingsRequest_ok {request : SettingsChangeRequest}
    {patch : List JsonPatchOperation} :
    checkSettingsRequest request = .ok patch ↔
      isStableIdentifier request.requestId = true ∧
        (isBlank request.source = false ∧ utf16Length request.source ≤ 128) ∧
          validateJsonPatch request.patch = .ok patch := by
  simp only [checkSettingsRequest, assertRequestId, assertSourceType, bind_ok, require_ok,
    mapError_ok]
  constructor
  · rintro ⟨_, hid, _, hsource, hpatch⟩
    exact ⟨hid, hsource, hpatch⟩
  · rintro ⟨hid, hsource, hpatch⟩
    exact ⟨.unit, hid, .unit, hsource, hpatch⟩

/-- The row of a commit is what a stored change should be. -/
theorem committedChange_stored {definition : SettingsDefinition} {request : SettingsChangeRequest}
    {patch : List JsonPatchOperation} {read : SettingsScopeRow} {applied : AppliedSettings}
    (changeId : String) (now : Int) (hrequest : checkSettingsRequest request = .ok patch)
    (happlied : applyWorkflowSettingsPatch definition read.current (patchJson patch) request.actor
      request.source = .ok applied) :
    applied.patch = patch ∧ StoredChange (committedChange request read applied changeId now) := by
  obtain ⟨hid, hsource, hvalid⟩ := checkSettingsRequest_ok.1 hrequest
  obtain ⟨hpatch, current, hfold, hsize, hsame⟩ := applyWorkflowSettingsPatch_ok happlied
  rw [validateJsonPatch_patchJson hvalid] at hpatch
  cases hpatch
  refine ⟨rfl, ?_, hid, hsource, ?_, sameJson_normalize _⟩
  · intro document hdocument
    obtain ⟨result, hresult, hequal⟩ := applyJsonPatch_stored hvalid hfold hsize hdocument
    exact ⟨result, hresult, (sameJson_normalize _).trans (hsame.symm.trans hequal)⟩
  · obtain ⟨patch', hpatch', -⟩ := validateJsonPatch_same (sameJson_normalize _).symm
      (validateJsonPatch_patchJson hvalid)
    exact ⟨patch', hpatch'⟩

theorem commitSettingsChange_chained {sha256 : String → String} {store store' : SettingsStore}
    {request : SettingsChangeRequest} {read : SettingsScopeRow} {applied : AppliedSettings}
    {changeId : String} {now : Int} (h : store.Chained)
    (hread : ∀ row, store.scopes.get? request.scopeId = some row →
      row.revision = read.revision → row.current = read.current)
    (hstored : StoredChange (committedChange request read applied changeId now))
    (hcommit : commitSettingsChange sha256 store request read applied changeId now = .ok store') :
    store'.Chained ∧ Extends store store' := by
  obtain ⟨row, hrow, hrevision, hfresh, hchanges, hscopes⟩ := commitSettingsChange_ok hcommit
  have hcurrent := hread row hrow hrevision
  have hmem : ∀ c ∈ store'.changes, c ∈ store.changes ∨
      c = committedChange request read applied changeId now := by
    intro c hc
    rw [hchanges, List.mem_append, List.mem_singleton] at hc
    exact hc
  have hchangesOf : ∀ scopeId, changesOf store' scopeId = changesOf store scopeId ++
      if scopeId = request.scopeId then [committedChange request read applied changeId now]
      else [] := by
    intro scopeId
    rw [changesOf, hchanges, List.filter_append, List.filter_singleton]
    by_cases hid : scopeId = request.scopeId
    · subst hid
      simp [changesOf, committedChange]
    · simp [changesOf, committedChange, hid, Ne.symm hid]
  constructor
  · refine ⟨?_, ?_, ?_, ?_⟩
    · intro scopeId row' hrow'
      rw [hscopes] at hrow'
      rw [hchangesOf]
      split at hrow'
      · next hid =>
          subst hid
          rw [hrow] at hrow'
          cases hrow'
          rw [if_pos rfl]
          refine chainedFrom_append (h.chain _ row hrow) ?_ hcurrent.symm
          show read.revision + 1 = row.revision + 1
          rw [hrevision]
      · next hid =>
          rw [if_neg hid, List.append_nil]
          exact h.chain scopeId row' hrow'
    · intro c hc
      rcases hmem c hc with hold | rfl
      · rw [hscopes]
        split
        · rw [Option.isSome_map]
          exact h.hasScope c hold
        · exact h.hasScope c hold
      · show (store'.scopes.get? request.scopeId).isSome = true
        rw [hscopes, if_pos rfl, Option.isSome_map, hrow]
        rfl
    · intro c hc
      rcases hmem c hc with hold | rfl
      · exact h.stored c hold
      · exact hstored
    · rw [hchanges, List.pairwise_append]
      refine ⟨h.requestOnce, List.pairwise_singleton _ _, ?_⟩
      intro a ha b hb
      rw [List.mem_singleton] at hb
      subst hb
      exact hfresh a ha
  · refine ⟨?_, _, hchanges⟩
    intro scopeId row' hrow'
    rw [hscopes, hrow']
    split
    · exact ⟨_, rfl, by simp, by simp⟩
    · exact ⟨row', rfl, Nat.le_refl _, fun _ => rfl⟩

/-! ## Calls -/

/-- What a call knows where it stands. A waiting call holds a row the scope has
not fallen behind; a result it returned is the stored change of its request. -/
def CallFits (sha256 : String → String) (store : SettingsStore) (call : SettingsCall) : Prop :=
  match call.phase with
  | .awaiting _ patch read =>
      checkSettingsRequest call.request = .ok patch ∧
        ∃ row, store.scopes.get? call.request.scopeId = some row ∧ read.revision ≤ row.revision ∧
          (read.revision = row.revision → read.current = row.current)
  | .returned (.ok result) =>
      ∃ change ∈ store.changes, change.scopeId = call.request.scopeId ∧
        change.requestId = call.request.requestId ∧
          (∃ patch, checkSettingsRequest call.request = .ok patch ∧
            IsSameSettingsChange sha256 change call.request (jsonHash sha256 (patchJson patch))) ∧
            settingsChangeRecord sha256 change = .ok result.change
  | .returned (.error _) => True

section

variable {sha256 : String → String} {store store' : SettingsStore} {request : SettingsChangeRequest}

theorem CallFits.mono {call : SettingsCall} (hextends : Extends store store')
    (h : CallFits sha256 store call) : CallFits sha256 store' call := by
  unfold CallFits at h ⊢
  split
  · next attempt patch read hphase =>
      rw [hphase] at h
      obtain ⟨hpatch, row, hrow, hle, hcurrent⟩ := h
      obtain ⟨row', hrow', hle', hcurrent'⟩ := hextends.scopes _ row hrow
      refine ⟨hpatch, row', hrow', by omega, fun heq => ?_⟩
      rw [hcurrent (by omega)]
      exact hcurrent' (by omega)
  · next result hphase =>
      rw [hphase] at h
      obtain ⟨change, hmem, hfits⟩ := h
      obtain ⟨added, hadded⟩ := hextends.changes
      exact ⟨change, hadded ▸ List.mem_append_left _ hmem, hfits⟩
  · trivial

theorem settingsChangeRow_some {scopeId requestId : String} {change : SettingsChangeRow}
    (h : settingsChangeRow store scopeId requestId = some change) :
    change ∈ store.changes ∧ change.scopeId = scopeId ∧ change.requestId = requestId := by
  have hp := List.find?_some h
  simp only [decide_eq_true_eq] at hp
  exact ⟨List.mem_of_find?_eq_some h, hp⟩

theorem requestId_unique (h : store.Chained) :
    ∀ a ∈ store.changes, ∀ b ∈ store.changes, a.scopeId = b.scopeId →
      a.requestId = b.requestId → a = b := by
  refine List.Pairwise.forall_of_forall_of_flip (fun a _ _ _ => rfl) ?_ ?_
  · exact h.requestOnce.imp fun hne hscope hrequest => absurd ⟨hscope, hrequest⟩ hne
  · exact h.requestOnce.imp fun hne hscope hrequest =>
      absurd ⟨hscope.symm, hrequest.symm⟩ hne

/-- A request id finds its change. -/
theorem settingsChangeRow_of_mem (h : store.Chained) {change : SettingsChangeRow}
    (hmem : change ∈ store.changes) :
    settingsChangeRow store change.scopeId change.requestId = some change := by
  have hex : ∃ other, settingsChangeRow store change.scopeId change.requestId = some other := by
    rw [← Option.isSome_iff_exists, settingsChangeRow, List.find?_isSome]
    exact ⟨change, hmem, by simp⟩
  obtain ⟨other, hother⟩ := hex
  obtain ⟨hmem', hscope, hrequest⟩ := settingsChangeRow_some hother
  rw [hother, requestId_unique h other hmem' change hmem hscope hrequest]

/-- The result for a stored change is its record. -/
theorem settingsChangeResult_ok (sha256 : String → String) (h : store.Chained) {change : SettingsChangeRow}
    (hmem : change ∈ store.changes) (adopted : Bool) :
    ∃ result, settingsChangeResult sha256 store change.scopeId change adopted = .ok result ∧
      settingsChangeRecord sha256 change = .ok result.change ∧ result.adopted = adopted := by
  obtain ⟨patch, hpatch⟩ := (h.stored change hmem).patch
  obtain ⟨row, hrow⟩ := Option.isSome_iff_exists.1 (h.hasScope change hmem)
  have hrecord : ∃ record, settingsChangeRecord sha256 change = .ok record := by
    rw [settingsChangeRecord, hpatch]
    exact ⟨_, rfl⟩
  obtain ⟨record, hrecord⟩ := hrecord
  refine ⟨⟨settingsScopeRecord sha256 change.scopeId row, record, adopted⟩, ?_, hrecord, rfl⟩
  simp only [settingsChangeResult, requireSettingsScopeRow, bind_ok, orThrow_ok, pure_ok]
  exact ⟨row, hrow, record, hrecord, rfl⟩

/-- An attempt that finds its request id in the history answers with what is
there, or refuses. -/
theorem openAttempt_repeat (sha256 : String → String) (h : store.Chained) {change : SettingsChangeRow}
    (hmem : change ∈ store.changes) (hscope : request.scopeId = change.scopeId)
    (hrequest : request.requestId = change.requestId) (patch : List JsonPatchOperation)
    {attempt : Nat} (hattempt : attempt < maxSettingsAttempts) :
    (IsSameSettingsChange sha256 change request (jsonHash sha256 (patchJson patch)) →
      ∃ result, openAttempt sha256 store request patch attempt = .returned (.ok result) ∧
        settingsChangeRecord sha256 change = .ok result.change ∧ result.adopted = true) ∧
    (¬ IsSameSettingsChange sha256 change request (jsonHash sha256 (patchJson patch)) →
      ∃ e, openAttempt sha256 store request patch attempt = .returned (.error e)) := by
  have hopen : openAttempt sha256 store request patch attempt = .returned (do
      assertSameSettingsChange sha256 change request (jsonHash sha256 (patchJson patch))
      settingsChangeResult sha256 store request.scopeId change true) := by
    rw [openAttempt, if_pos hattempt, hscope, hrequest, settingsChangeRow_of_mem h hmem]
  rw [hopen, assertSameSettingsChange, require]
  constructor
  · intro hsame
    obtain ⟨result, hresult, hrecord, hadopted⟩ :=
      settingsChangeResult_ok sha256 h hmem true
    refine ⟨result, ?_, hrecord, hadopted⟩
    rw [if_pos hsame, hscope, ← hresult]
    rfl
  · intro hother
    rw [if_neg hother]
    exact ⟨_, rfl⟩

theorem openAttempt_fits (h : store.Chained) {definition : SettingsDefinition}
    {patch : List JsonPatchOperation} (hpatch : checkSettingsRequest request = .ok patch)
    (attempt : Nat) :
    CallFits sha256 store ⟨definition, request, openAttempt sha256 store request patch attempt⟩ := by
  by_cases hattempt : attempt < maxSettingsAttempts
  · cases hprior : settingsChangeRow store request.scopeId request.requestId with
    | some change =>
        obtain ⟨hmem, hscope, hrequest⟩ := settingsChangeRow_some hprior
        obtain ⟨hsame, hother⟩ := openAttempt_repeat sha256 h hmem hscope.symm
          hrequest.symm patch hattempt
        by_cases hcontent : IsSameSettingsChange sha256 change request
            (jsonHash sha256 (patchJson patch))
        · obtain ⟨result, hopen, hrecord, -⟩ := hsame hcontent
          rw [CallFits, hopen]
          exact ⟨change, hmem, hscope, hrequest, ⟨patch, hpatch, hcontent⟩, hrecord⟩
        · obtain ⟨e, hopen⟩ := hother hcontent
          rw [CallFits, hopen]
          trivial
    | none =>
        cases hread : readSettingsScope store request with
        | error e =>
            rw [CallFits, openAttempt, if_pos hattempt, hprior]
            simp only [hread]
        | ok read =>
            rw [CallFits, openAttempt, if_pos hattempt, hprior]
            simp only [hread]
            refine ⟨hpatch, read, ?_, Nat.le_refl _, fun _ => rfl⟩
            simp only [readSettingsScope, requireSettingsScopeRow, bind_ok, orThrow_ok] at hread
            obtain ⟨row, hrow, _, -, _, -, hread⟩ := hread
            split at hread
            · cases hread
              exact hrow
            · simp only [bind_ok, pure_ok] at hread
              obtain ⟨_, -, rfl⟩ := hread
              exact hrow
  · rw [CallFits, openAttempt, if_neg hattempt]
    trivial

theorem startCall_fits (h : store.Chained) (definition : SettingsDefinition) :
    CallFits sha256 store ⟨definition, request, startCall sha256 store request⟩ := by
  cases hpatch : checkSettingsRequest request with
  | error e =>
      rw [CallFits, startCall, hpatch]
      trivial
  | ok patch =>
      rw [startCall, hpatch]
      exact openAttempt_fits h hpatch 0

end

/-! ## Turns -/

/-- A call after its own commit returns the change it made. -/
theorem committedResult_ok {sha256 : String → String} {store store' : SettingsStore}
    {request : SettingsChangeRequest} {read : SettingsScopeRow} {applied : AppliedSettings}
    {changeId : String} {now : Int} (h : store'.Chained)
    (hcommit : commitSettingsChange sha256 store request read applied changeId now = .ok store') :
    ∃ result, committedResult sha256 store' request changeId = .ok result ∧
      settingsChangeRecord sha256 (committedChange request read applied changeId now) =
        .ok result.change ∧ result.adopted = false := by
  obtain ⟨_, -, -, -, hchanges, -⟩ := commitSettingsChange_ok hcommit
  have hmem : committedChange request read applied changeId now ∈ store'.changes := by
    rw [hchanges]
    simp
  obtain ⟨result, hresult, hrecord, hadopted⟩ :=
    settingsChangeResult_ok sha256 h hmem false
  refine ⟨result, ?_, hrecord, hadopted⟩
  have hrow : settingsChangeRow store' request.scopeId request.requestId =
      some (committedChange request read applied changeId now) :=
    settingsChangeRow_of_mem h hmem
  rw [committedResult, hrow]
  show (if changeId = changeId then _ else _) = _
  rw [if_pos rfl]
  exact hresult

/-- The turn after a wait writes nothing, or commits and returns its own change. -/
theorem resumeCall_cases {sha256 : String → String} {store : SettingsStore} (h : store.Chained)
    {definition : SettingsDefinition} {request : SettingsChangeRequest} {attempt : Nat}
    {patch : List JsonPatchOperation} {read : SettingsScopeRow} (changeId : String) (now : Int)
    (hfits : CallFits sha256 store ⟨definition, request, .awaiting attempt patch read⟩) :
    ∃ store' phase, resumeCall sha256 store definition request attempt patch read changeId now =
        (store', phase) ∧ store'.Chained ∧ Extends store store' ∧
      CallFits sha256 store' ⟨definition, request, phase⟩ ∧
        (store' = store ∨ ∃ result, phase = .returned (.ok result)) := by
  obtain ⟨hpatch, row, hrow, -, hcurrent⟩ := hfits
  have hread : ∀ row, store.scopes.get? request.scopeId = some row →
      row.revision = read.revision → row.current = read.current := by
    intro row' hrow' hrevision
    cases hrow.symm.trans hrow'
    exact (hcurrent hrevision.symm).symm
  have hstay : ∀ phase, CallFits sha256 store ⟨definition, request, phase⟩ →
      ∃ store' phase', (store, phase) = (store', phase') ∧ store'.Chained ∧ Extends store store' ∧
        CallFits sha256 store' ⟨definition, request, phase'⟩ ∧
          (store' = store ∨ ∃ result, phase' = .returned (.ok result)) := fun phase hphase =>
    ⟨store, phase, rfl, h, .refl store, hphase, .inl rfl⟩
  unfold resumeCall
  split
  · exact hstay _ trivial
  · next applied happlied =>
      obtain ⟨hsame, hstored⟩ := committedChange_stored changeId now hpatch happlied
      split
      · next store' hcommit =>
          obtain ⟨hchained, hextends⟩ := commitSettingsChange_chained h hread hstored hcommit
          obtain ⟨result, hresult, hrecord, -⟩ := committedResult_ok hchained hcommit
          refine ⟨store', _, rfl, hchained, hextends, ?_, .inr ⟨result, by rw [hresult]⟩⟩
          obtain ⟨_, -, -, -, hchanges, -⟩ := commitSettingsChange_ok hcommit
          rw [CallFits, hresult]
          refine ⟨committedChange request read applied changeId now, ?_, rfl, rfl, ?_, hrecord⟩
          · rw [hchanges]
            simp
          · refine ⟨patch, hpatch, ?_, rfl, rfl⟩
            show sha256 (canonicalJson (normalizeJson (patchJson applied.patch))) = _
            rw [canonicalJson_eq_iff_same.2 (sameJson_normalize _), hsame]
            rfl
      · exact hstay _ trivial
      · split
        · exact hstay _ (openAttempt_fits h hpatch (attempt + 1))
        · exact hstay _ trivial

/-- The store is chained and every call fits it. -/
def SettingsSystem.Sound (sha256 : String → String) (s : SettingsSystem) : Prop :=
  s.store.Chained ∧ ∀ call ∈ s.calls, CallFits sha256 s.store call

section

variable {sha256 : String → String} {s : SettingsSystem}

theorem settingsStep_sound (h : s.Sound sha256) (action : SettingsAction) :
    (settingsStep sha256 s action).Sound sha256 := by
  obtain ⟨hchained, hcalls⟩ := h
  cases action with
  | change definition request =>
      refine ⟨hchained, fun call hcall => ?_⟩
      rcases List.mem_append.1 hcall with hold | hnew
      · exact hcalls call hold
      · rw [List.mem_singleton] at hnew
        subst hnew
        exact startCall_fits hchained definition
  | resume index changeId now =>
      simp only [settingsStep]
      split
      · next definition request attempt patch read hcall =>
          obtain ⟨store', phase, hresume, hchained', hextends, hfits, -⟩ :=
            resumeCall_cases hchained changeId now (hcalls _ (List.mem_of_getElem? hcall))
          rw [hresume]
          refine ⟨hchained', fun call hmem => ?_⟩
          rcases List.mem_or_eq_of_mem_set hmem with hold | rfl
          · exact (hcalls call hold).mono hextends
          · exact hfits
      · exact ⟨hchained, hcalls⟩
  | ensureScope runId mountPath invocation settings now =>
      simp only [settingsStep]
      split
      · next store' hensure =>
          obtain ⟨hchained', hextends⟩ := ensureSettingsScope_chained hchained hensure
          exact ⟨hchained', fun call hmem => (hcalls call hmem).mono hextends⟩
      · exact ⟨hchained, hcalls⟩
  | runStatus runId status =>
      have hscopes : (settingsStep sha256 s (.runStatus runId status)).store.scopes =
          s.store.scopes := rfl
      exact ⟨chained_of_eq hscopes rfl hchained, fun call hmem =>
        (hcalls call hmem).mono (.of_eq hscopes rfl)⟩

theorem settingsRun_sound (h : s.Sound sha256) (actions : List SettingsAction) :
    (settingsRun sha256 s actions).Sound sha256 := by
  induction actions generalizing s with
  | nil => exact h
  | cons action rest ih => exact ih (settingsStep_sound h action)

theorem settingsRun_append (first second : List SettingsAction) :
    settingsRun sha256 s (first ++ second) =
      settingsRun sha256 (settingsRun sha256 s first) second := by
  rw [settingsRun, List.foldl_append]
  rfl

/-- A call that returned stays as it is. -/
theorem settingsStep_returned {index : Nat} {call : SettingsCall}
    {result : Except StoreError SettingsChangeResult} (hcall : s.calls[index]? = some call)
    (hphase : call.phase = .returned result) (action : SettingsAction) :
    (settingsStep sha256 s action).calls[index]? = some call := by
  cases action with
  | change definition request =>
      obtain ⟨hlt, -⟩ := List.getElem?_eq_some_iff.1 hcall
      simp only [settingsStep]
      rw [List.getElem?_append_left hlt, hcall]
  | resume index' changeId now =>
      simp only [settingsStep]
      split
      · next definition request attempt patch read hother =>
          have hne : index' ≠ index := by
            rintro rfl
            rw [hcall] at hother
            cases hother
            cases hphase
          rw [List.getElem?_set_ne hne, hcall]
      · exact hcall
  | ensureScope runId mountPath invocation settings now =>
      simp only [settingsStep]
      split
      · exact hcall
      · exact hcall
  | runStatus runId status => exact hcall

theorem settingsRun_returned (sha256 : String → String) {index : Nat} {call : SettingsCall}
    {result : Except StoreError SettingsChangeResult} (hcall : s.calls[index]? = some call)
    (hphase : call.phase = .returned result) (actions : List SettingsAction) :
    (settingsRun sha256 s actions).calls[index]? = some call := by
  induction actions generalizing s with
  | nil => exact hcall
  | cons action rest ih => exact ih (settingsStep_returned hcall hphase action)

/-- A turn of a call writes nothing, or is its last and returns a result. -/
theorem settingsStep_resume (h : s.Sound sha256) (index : Nat) (changeId : String) (now : Int) :
    (settingsStep sha256 s (.resume index changeId now)).store = s.store ∨
      ∃ call result,
        (settingsStep sha256 s (.resume index changeId now)).calls[index]? = some call ∧
          call.phase = .returned (.ok result) := by
  simp only [settingsStep]
  split
  · next definition request attempt patch read hcall =>
      obtain ⟨store', phase, hresume, -, -, -, hkeep | ⟨result, hphase⟩⟩ :=
        resumeCall_cases h.1 changeId now (h.2 _ (List.mem_of_getElem? hcall))
      · rw [hresume]
        exact .inl hkeep
      · obtain ⟨hlt, -⟩ := List.getElem?_eq_some_iff.1 hcall
        rw [hresume]
        refine .inr ⟨⟨definition, request, phase⟩, result, ?_, hphase⟩
        exact List.getElem?_set_self hlt
  · exact .inl rfl

end

/-! ## The history over runs -/

/-- The values of a history, replayed from the first. -/
def replayHistory (initial : Json) (changes : List SettingsChangeRow) : Except String Json :=
  changes.foldlM (fun value change => applyJsonPatch value change.patch) initial

/-- The request asks for what the change was accepted for. -/
def SameContent (change : SettingsChangeRow) (request : SettingsChangeRequest) : Prop :=
  (∃ patch, validateJsonPatch request.patch = .ok patch ∧
    change.patch = storedJson (patchJson patch)) ∧
      change.actor = request.actor ∧ change.source = request.source

/-- The call is answered with a change that was accepted before. -/
def Adopts (sha256 : String → String) (change : SettingsChangeRow) (phase : CallPhase) : Prop :=
  ∃ result, phase = .returned (.ok result) ∧
    settingsChangeRecord sha256 change = .ok result.change ∧ result.adopted = true

/-- The call is over without a result. -/
def Rejects (phase : CallPhase) : Prop :=
  ∃ e, phase = .returned (.error e)

/-- The accepted changes of every scope are a chain that leads to its value. -/
structure HistorySound (sha256 : String → String) (store : SettingsStore) : Prop where
  chained : ∀ scopeId row, store.scopes.get? scopeId = some row →
    ChainedFrom 0 row.initial (settingsHistory store scopeId) row.revision row.current
  replayed : ∀ scopeId row, store.scopes.get? scopeId = some row →
    ∃ value, replayHistory row.initial (settingsHistory store scopeId) = .ok value ∧
      canonicalJson value = canonicalJson row.current
  verified : ∀ runId, verifySettingsProjections sha256 store runId = .ok .unit
  requestOnce : ∀ a ∈ store.changes, ∀ b ∈ store.changes, a.scopeId = b.scopeId →
    a.requestId = b.requestId → a = b

theorem replayHistory_of_replayChanges {sha256 : String → String} {scopeId : String}
    {initial value : Json} {hash hash' : String} {number number' : Nat}
    {changes : List SettingsChangeRow}
    (h : replayChanges sha256 scopeId (initial, hash, number) changes = .ok (value, hash', number')) :
    replayHistory initial changes = .ok value := by
  induction changes generalizing initial hash number with
  | nil =>
      cases h
      rfl
  | cons change rest ih =>
      simp only [replayChanges, bind_ok, mapError_ok] at h
      obtain ⟨_, -, _, -, next, hnext, _, -, hrest⟩ := h
      simp only [replayHistory, List.foldlM_cons, bind_ok]
      exact ⟨next, hnext, ih hrest⟩

theorem historySound_of_chained {sha256 : String → String} {store : SettingsStore}
    (h : store.Chained) : HistorySound sha256 store where
  chained := by
    intro scopeId row hrow
    rw [settingsHistory_eq h hrow]
    exact h.chain scopeId row hrow
  replayed := by
    intro scopeId row hrow
    rw [settingsHistory_eq h hrow]
    obtain ⟨value, hreplay, hsame⟩ := replayChanges_chained sha256 scopeId
      (h.chain scopeId row hrow) (fun c hc => (h.stored c (List.mem_of_mem_filter hc)).replays) (SameJson.refl row.initial)
    exact ⟨value, replayHistory_of_replayChanges hreplay, (canonicalJson_eq_iff_same.2 hsame).symm⟩
  verified := verifySettingsProjections_chained h
  requestOnce := requestId_unique h

/-- Under an injective digest the code's test for the same content is exact. -/
theorem isSameSettingsChange_iff {sha256 : String → String} (hsha : Function.Injective sha256)
    {change : SettingsChangeRow} {request : SettingsChangeRequest}
    {patch : List JsonPatchOperation} (hpatch : validateJsonPatch request.patch = .ok patch)
    (hcanonical : normalizeJson change.patch = change.patch) :
    IsSameSettingsChange sha256 change request (jsonHash sha256 (patchJson patch)) ↔
      SameContent change request := by
  have hdigest : jsonHash sha256 change.patch = jsonHash sha256 (patchJson patch) ↔
      change.patch = storedJson (patchJson patch) := by
    rw [jsonHash, jsonHash, hsha.eq_iff, canonicalJson_eq_iff_same, SameJson, hcanonical]
    rfl
  rw [IsSameSettingsChange, hdigest, SameContent]
  constructor
  · rintro ⟨hcontent, hactor, hsource⟩
    exact ⟨⟨patch, hpatch, hcontent⟩, hactor, hsource⟩
  · rintro ⟨⟨patch', hpatch', hcontent⟩, hactor, hsource⟩
    cases hpatch.symm.trans hpatch'
    exact ⟨hcontent, hactor, hsource⟩

/-- An attempt that starts after the change was accepted. -/
theorem openAttempt_answers {sha256 : String → String} (hsha : Function.Injective sha256)
    {store : SettingsStore} (h : store.Chained) {change : SettingsChangeRow}
    (hmem : change ∈ store.changes) {request : SettingsChangeRequest}
    (hscope : request.scopeId = change.scopeId) (hrequest : request.requestId = change.requestId)
    {patch : List JsonPatchOperation} (hpatch : validateJsonPatch request.patch = .ok patch)
    {attempt : Nat} (hattempt : attempt < maxSettingsAttempts) :
    (SameContent change request →
      Adopts sha256 change (openAttempt sha256 store request patch attempt)) ∧
    (¬ SameContent change request → Rejects (openAttempt sha256 store request patch attempt)) := by
  have hcontent := isSameSettingsChange_iff hsha hpatch (h.stored change hmem).canonical
  obtain ⟨hsame, hother⟩ := openAttempt_repeat sha256 h hmem hscope hrequest patch hattempt
  exact ⟨fun hc => hsame (hcontent.2 hc), fun hc => hother (mt hcontent.1 hc)⟩

/-- A call that starts after the change was accepted. -/
theorem startCall_answers {sha256 : String → String} (hsha : Function.Injective sha256)
    {store : SettingsStore} (h : store.Chained) {change : SettingsChangeRow}
    (hmem : change ∈ store.changes) {request : SettingsChangeRequest}
    (hscope : request.scopeId = change.scopeId) (hrequest : request.requestId = change.requestId) :
    (SameContent change request → Adopts sha256 change (startCall sha256 store request)) ∧
    (¬ SameContent change request → Rejects (startCall sha256 store request)) := by
  have hfirst : (0 : Nat) < maxSettingsAttempts := by decide
  constructor
  · rintro ⟨⟨patch, hpatch, hcontent⟩, hactor, hsource⟩
    have hstored := h.stored change hmem
    have hcheck : checkSettingsRequest request = .ok patch := by
      rw [checkSettingsRequest_ok, hrequest, ← hsource]
      exact ⟨hstored.requestId, hstored.source, hpatch⟩
    rw [startCall, hcheck]
    exact (openAttempt_answers hsha h hmem hscope hrequest hpatch hfirst).1
      ⟨⟨patch, hpatch, hcontent⟩, hactor, hsource⟩
  · intro hother
    cases hcheck : checkSettingsRequest request with
    | error e =>
        rw [startCall, hcheck]
        exact ⟨e, rfl⟩
    | ok patch =>
        rw [startCall, hcheck]
        have hpatch := (checkSettingsRequest_ok.1 hcheck).2.2
        exact (openAttempt_answers hsha h hmem hscope hrequest hpatch hfirst).2 hother

/-- A call that failed wrote nothing in any of its turns. -/
theorem failedCall_wroteNothing {sha256 : String → String} {s : SettingsSystem}
    (h : s.Sound sha256) {before after : List SettingsAction} {index : Nat} {changeId : String}
    {now : Int} {call : SettingsCall} {e : StoreError}
    (hcall : (settingsRun sha256 s (before ++ .resume index changeId now :: after)).calls[index]? =
      some call) (hphase : call.phase = .returned (.error e)) :
    (settingsRun sha256 s (before ++ [.resume index changeId now])).store =
      (settingsRun sha256 s before).store := by
  rw [settingsRun_append]
  have hsound := settingsRun_sound h before
  rcases settingsStep_resume hsound index changeId now with hkeep | ⟨call', result, hcall', hphase'⟩
  · exact hkeep
  · rw [settingsRun_append] at hcall
    have hstays := settingsRun_returned sha256 hcall' hphase' after
    have heq : call = call' := Option.some.inj (hcall.symm.trans hstays)
    rw [heq, hphase'] at hphase
    cases hphase

/-- In every interleaving of calls the accepted changes are a chain that replays
to the current value. A call that returns a result returns the one change that
was ever accepted under its request id, which had its content; a call that
starts, or starts over, after that change returns it or, with other content, is
rejected; and a call that fails wrote nothing. -/
theorem settingsHistory_sound {sha256 : String → String} (hsha : Function.Injective sha256)
    {store : SettingsStore} (hfresh : store.Fresh) (actions : List SettingsAction) :
    let s := settingsRun sha256 ⟨store, []⟩ actions
    HistorySound sha256 s.store ∧
    (∀ call ∈ s.calls, ∀ result, call.phase = .returned (.ok result) →
      ∃ change ∈ s.store.changes, change.scopeId = call.request.scopeId ∧
        change.requestId = call.request.requestId ∧ SameContent change call.request ∧
          settingsChangeRecord sha256 change = .ok result.change) ∧
    (∀ change ∈ s.store.changes, ∀ request : SettingsChangeRequest,
      request.scopeId = change.scopeId → request.requestId = change.requestId →
      (SameContent change request → Adopts sha256 change (startCall sha256 s.store request)) ∧
      (¬ SameContent change request → Rejects (startCall sha256 s.store request)) ∧
      ∀ patch attempt, validateJsonPatch request.patch = .ok patch →
        attempt < maxSettingsAttempts →
        (SameContent change request →
          Adopts sha256 change (openAttempt sha256 s.store request patch attempt)) ∧
        (¬ SameContent change request →
          Rejects (openAttempt sha256 s.store request patch attempt))) ∧
    (∀ definition request,
      (settingsStep sha256 s (.change definition request)).store = s.store) ∧
    ∀ before after index changeId now, actions = before ++ .resume index changeId now :: after →
      ∀ call e, s.calls[index]? = some call → call.phase = .returned (.error e) →
        (settingsRun sha256 ⟨store, []⟩ (before ++ [.resume index changeId now])).store =
          (settingsRun sha256 ⟨store, []⟩ before).store := by
  intro s
  have hstart : SettingsSystem.Sound sha256 ⟨store, []⟩ :=
    ⟨hfresh.chained, fun _ hcall => by cases hcall⟩
  obtain ⟨hchained, hcalls⟩ : s.Sound sha256 := settingsRun_sound hstart actions
  refine ⟨historySound_of_chained hchained, ?_, ?_, fun _ _ => rfl, ?_⟩
  · intro call hcall result hphase
    have hfits := hcalls call hcall
    rw [CallFits, hphase] at hfits
    obtain ⟨change, hmem, hscope, hrequest, ⟨patch, hcheck, hsame⟩, hrecord⟩ := hfits
    have hpatch := (checkSettingsRequest_ok.1 hcheck).2.2
    have hcontent := isSameSettingsChange_iff hsha hpatch (hchained.stored change hmem).canonical
    exact ⟨change, hmem, hscope, hrequest, hcontent.1 hsame, hrecord⟩
  · intro change hmem request hscope hrequest
    obtain ⟨hadopts, hrejects⟩ := startCall_answers hsha hchained hmem hscope hrequest
    exact ⟨hadopts, hrejects, fun patch attempt hpatch hattempt =>
      openAttempt_answers hsha hchained hmem hscope hrequest hpatch hattempt⟩
  · rintro before after index changeId now rfl call e hcall hphase
    exact failedCall_wroteNothing hstart hcall hphase

/-! ## Two calls with one request id -/

/-- One scope with one number in it. -/
def limitStore : SettingsStore where
  runs := [("run", .running)]
  scopes := ⟨[("run:$root:1",
    { originRunId := "run", activeRunId := "run", mountPath := "", invocation := 1
      initial := .obj [("limit", .num (.ofNat 1))], current := .obj [("limit", .num (.ofNat 1))]
      revision := 0, createdAt := 0, updatedAt := 0 })], by simp⟩
  changes := []

/-- Sessions may replace anything. -/
def limitDefinition : SettingsDefinition where
  paths := [{ path := "", replace := [.session] }]
  parse := .ok

def raiseLimit : SettingsChangeRequest where
  runId := "run"
  scopeId := "run:$root:1"
  requestId := "raise"
  expectedChangeNumber := some 0
  actor := { type := .session }
  source := "pi-session"
  patch := .arr [.obj [("op", .str "replace"), ("path", .str "/limit"), ("value", .num (.ofNat 2))]]

/-- The same request twice, the second before the first is committed. -/
def overlappingRepeat : List SettingsAction :=
  [.change limitDefinition raiseLimit, .change limitDefinition raiseLimit,
    .resume 0 "first" 1, .resume 1 "second" 2]

/-- The first call's change is accepted, and the repeat with the same content is
not given it: it had looked before, and finds the revision moved on. -/
theorem overlappingRepeat_fails :
    let s := settingsRun id ⟨limitStore, []⟩ overlappingRepeat
    (∃ change ∈ s.store.changes, change.scopeId = raiseLimit.scopeId ∧
      change.requestId = raiseLimit.requestId ∧ SameContent change raiseLimit) ∧
    s.calls[1]?.map SettingsCall.phase =
      some (.returned (.error (.stale "Resource revision changed before mutation"))) := by
  refine ⟨⟨_, List.mem_singleton.2 rfl, rfl, rfl, ⟨_, rfl, rfl⟩, rfl, rfl⟩, rfl⟩

theorem limitStore_fresh : limitStore.Fresh where
  scopes := by
    intro scopeId row hrow
    have hmem := Table.mem_rows.2 hrow
    rw [limitStore, List.mem_singleton] at hmem
    cases hmem
    exact ⟨rfl, rfl⟩
  changes := rfl

/-- The overlapping calls leave one change behind, which verifies. -/
theorem overlappingRepeat_history :
    let s := settingsRun id ⟨limitStore, []⟩ overlappingRepeat
    HistorySound id s.store ∧ s.store.changes.length = 1 :=
  ⟨(settingsHistory_sound Function.injective_id limitStore_fresh overlappingRepeat).1, rfl⟩

end PiWorkflows
