import PiWorkflows.Proofs.CommandReceipts
import PiWorkflows.Proofs.SettingsHistory
import PiWorkflows.Server.SessionSettings

/-!
# Settings changes of sessions and their history

A session's change is stored under an id made from its client and its key. The
invariant ties the three places that know of it together: the execution that the
command has in flight, the call of the store that the execution has made, and the
receipt. A command has one execution, an awaiting call of a session belongs to one,
and while it awaits neither the change nor the receipt is there (`Repeatable`).

This module defines the invariant and shows that no turn of the store's calls and no
write of others breaks it. A turn adds a change at most of the request of its call.
-/

namespace PiWorkflows

open Fallible

/-! ## What a turn does to the history -/

/-- The scopes stay with their runs. -/
def KeepsScopes (before after : SettingsStore) : Prop :=
  ∀ scopeId row, before.scopes.get? scopeId = some row →
    ∃ row', after.scopes.get? scopeId = some row' ∧ row'.activeRunId = row.activeRunId

theorem KeepsScopes.of_eq {before after : SettingsStore} (h : after.scopes = before.scopes) :
    KeepsScopes before after :=
  fun _ row hrow => ⟨row, h ▸ hrow, rfl⟩

/-- A change that a call has made, and the result it returns. -/
structure Committed (sha256 : String → String) (request : SettingsChangeRequest)
    (patch : List JsonPatchOperation) (change : SettingsChangeRow)
    (result : SettingsChangeResult) : Prop where
  scopeId : change.scopeId = request.scopeId
  requestId : change.requestId = request.requestId
  same : IsSameSettingsChange sha256 change request (jsonHash sha256 (patchJson patch))
  number : result.scope.changeNumber = change.changeNumber
  adopted : result.adopted = false

section

variable {sha256 : String → String} {store store' : SettingsStore} {request : SettingsChangeRequest}

theorem settingsChangeResult_scope {scopeId : String} {change : SettingsChangeRow} {adopted : Bool}
    {result : SettingsChangeResult}
    (h : settingsChangeResult sha256 store scopeId change adopted = .ok result) :
    ∃ row, store.scopes.get? scopeId = some row ∧ result.scope.changeNumber = row.revision := by
  simp only [settingsChangeResult, requireSettingsScopeRow, bind_ok, orThrow_ok, pure_ok] at h
  obtain ⟨row, hrow, _, _, rfl⟩ := h
  exact ⟨row, hrow, rfl⟩

theorem commitSettingsChange_keeps {read : SettingsScopeRow} {applied : AppliedSettings}
    {changeId : String} {now : Int}
    (h : commitSettingsChange sha256 store request read applied changeId now = .ok store') :
    KeepsScopes store store' := by
  obtain ⟨_, _, _, _, _, hscopes⟩ := commitSettingsChange_ok h
  intro scopeId row hrow
  rw [hscopes, hrow]
  split
  · exact ⟨_, rfl, rfl⟩
  · exact ⟨row, rfl, rfl⟩

/-- A turn of a call that waits writes nothing, or it commits and returns. -/
theorem resumeCall_writes (h : store.Chained) {definition : SettingsDefinition} {attempt : Nat}
    {patch : List JsonPatchOperation} {read : SettingsScopeRow} (changeId : String) (now : Int)
    (hfits : CallFits sha256 store ⟨definition, request, .awaiting attempt patch read⟩) :
    (∃ phase, resumeCall sha256 store definition request attempt patch read changeId now =
        (store, phase) ∧
      (request.expectedChangeNumber ≠ none → ∃ e, phase = .returned (.error e))) ∨
    ∃ store' change result,
      resumeCall sha256 store definition request attempt patch read changeId now =
        (store', .returned (.ok result)) ∧
      store'.changes = store.changes ++ [change] ∧ KeepsScopes store store' ∧
      Committed sha256 request patch change result := by
  obtain ⟨hpatch, row, hrow, -, hcurrent⟩ := hfits
  have hread : ∀ row, store.scopes.get? request.scopeId = some row →
      row.revision = read.revision → row.current = read.current := by
    intro row' hrow' hrevision
    cases hrow.symm.trans hrow'
    exact (hcurrent hrevision.symm).symm
  unfold resumeCall
  split
  · exact .inl ⟨_, rfl, fun _ => ⟨_, rfl⟩⟩
  · next applied happlied =>
      split
      · next store' hcommit =>
          right
          obtain ⟨hsame, hstored⟩ := committedChange_stored changeId now hpatch happlied
          have hchained := (commitSettingsChange_chained h hread hstored hcommit).1
          obtain ⟨result, hresult, -, hadopted⟩ := committedResult_ok hchained hcommit
          obtain ⟨row', hrow', hrevision, -, hchanges, hscopes⟩ := commitSettingsChange_ok hcommit
          refine ⟨store', _, result, by rw [hresult], hchanges, commitSettingsChange_keeps hcommit,
            rfl, rfl, ⟨?_, rfl, rfl⟩, ?_, hadopted⟩
          · show sha256 (canonicalJson (normalizeJson (patchJson applied.patch))) = _
            rw [canonicalJson_eq_iff_same.2 (sameJson_normalize _), hsame]
            rfl
          · -- The scope is read right behind the commit, at the number of the change.
            have hscoped : settingsChangeResult sha256 store' request.scopeId
                (committedChange request read applied changeId now) false = .ok result := by
              have hmem : committedChange request read applied changeId now ∈ store'.changes := by
                rw [hchanges]
                simp
              have hfound : settingsChangeRow store' request.scopeId request.requestId =
                  some (committedChange request read applied changeId now) :=
                settingsChangeRow_of_mem hchained hmem
              rw [committedResult, hfound] at hresult
              exact (if_pos rfl).symm.trans hresult
            obtain ⟨scope, hscope, hnumber⟩ := settingsChangeResult_scope hscoped
            rw [hscopes, if_pos rfl, hrow'] at hscope
            cases hscope
            rw [hnumber]
            show row'.revision + 1 = read.revision + 1
            rw [hrevision]
      · exact .inl ⟨_, rfl, fun _ => ⟨_, rfl⟩⟩
      · split
        · next hnone => exact .inl ⟨_, rfl, fun hsome => absurd hnone hsome⟩
        · exact .inl ⟨_, rfl, fun _ => ⟨_, rfl⟩⟩

theorem ensureSettingsScope_keeps {runId mountPath : String} {invocation : Nat} {settings : Json}
    {now : Int}
    (h : ensureSettingsScope store runId mountPath invocation settings now = .ok store') :
    KeepsScopes store store' ∧ store'.changes = store.changes := by
  simp only [ensureSettingsScope, bind_ok] at h
  obtain ⟨_, -, scopeId, -, h⟩ := h
  split at h
  · simp only [bind_ok, pure_ok] at h
    obtain ⟨_, -, rfl⟩ := h
    exact ⟨.of_eq rfl, rfl⟩
  · next hnone =>
      simp only [bind_ok, orThrow_ok, pure_ok] at h
      obtain ⟨scopes, hinsert, rfl⟩ := h
      refine ⟨fun id row hrow => ⟨row, ?_, rfl⟩, rfl⟩
      rw [(Table.get?_of_insert? hinsert).2 id, if_neg, hrow]
      rintro rfl
      rw [hnone] at hrow
      cases hrow

end

/-! ## One command in several requests -/

/-- A request is sent again, by the same client under the same key, with nothing but
its id and the epoch of the connection changed. -/
structure Repeats (a b : ClientRequest) : Prop where
  clientId : a.clientId = b.clientId
  idempotencyKey : a.idempotencyKey = b.idempotencyKey
  runId : a.runId = b.runId
  members : ∀ key, key ≠ "coordinatorEpoch" → payloadMember a key = payloadMember b key

/-- Requests of clients that use a key, and a request id, for one command. -/
def Consistent (sha256 : String → String) (requests : List ClientRequest) : Prop :=
  ∀ a ∈ requests, ∀ b ∈ requests,
    sessionRequestId sha256 a = sessionRequestId sha256 b ∨ a.requestId = b.requestId → Repeats a b

section

variable {sha256 : String → String} {a b : ClientRequest}

theorem Repeats.sessionRequestId (h : Repeats a b) :
    sessionRequestId sha256 a = PiWorkflows.sessionRequestId sha256 b := by
  rw [PiWorkflows.sessionRequestId, PiWorkflows.sessionRequestId, h.clientId, h.idempotencyKey]

theorem Repeats.requestedPatch (h : Repeats a b) :
    requestedPatch a = PiWorkflows.requestedPatch b := by
  rw [PiWorkflows.requestedPatch, PiWorkflows.requestedPatch, h.members "patch" (by simp)]

theorem Repeats.requirePayloadString (h : Repeats a b) {key : String}
    (hkey : key ≠ "coordinatorEpoch") :
    requirePayloadString a key = PiWorkflows.requirePayloadString b key := by
  rw [PiWorkflows.requirePayloadString, PiWorkflows.requirePayloadString, h.members key hkey]

theorem Repeats.requestedScopeId (h : Repeats a b) :
    requestedScopeId a = PiWorkflows.requestedScopeId b := by
  rw [PiWorkflows.requestedScopeId, PiWorkflows.requestedScopeId,
    h.members "scopeId" (by simp), h.requirePayloadString (by simp)]

theorem sameCommand_iff : sameCommand a b = true ↔
    a.clientId = b.clientId ∧ a.idempotencyKey = b.idempotencyKey := by
  rw [sameCommand, decide_eq_true_iff]

theorem sameCommand_comm (a b : ClientRequest) : sameCommand a b = sameCommand b a := by
  rw [sameCommand, sameCommand]
  exact decide_eq_decide.2 ⟨fun h => ⟨h.1.symm, h.2.symm⟩, fun h => ⟨h.1.symm, h.2.symm⟩⟩

theorem sessionRequestId_of_sameCommand (h : sameCommand a b = true) :
    sessionRequestId sha256 a = sessionRequestId sha256 b := by
  obtain ⟨hclient, hkey⟩ := sameCommand_iff.1 h
  rw [sessionRequestId, sessionRequestId, hclient, hkey]

theorem Repeats.sameCommand (h : Repeats a b) : sameCommand a b = true :=
  sameCommand_iff.2 ⟨h.clientId, h.idempotencyKey⟩

theorem toList_resourceManagerRequestKey (uid key : String) :
    (resourceManagerRequestKey uid key).toList =
      "resourceManager:".toList ++ (uid.toList ++ (":".toList ++ key.toList)) := by
  show ("resourceManager:" ++ uid ++ ":" ++ key).toList = _
  rw [String.toList_append, String.toList_append, String.toList_append, List.append_assoc,
    List.append_assoc]

theorem toList_sessionRequestId (request : ClientRequest) :
    (sessionRequestId sha256 request).toList = "session-".toList ++
      (sha256 (request.clientId ++ String.singleton (Char.ofNat 0) ++
        request.idempotencyKey)).toList :=
  String.toList_append

/-- A resource manager's ids are not those of a session. -/
theorem resourceManagerRequestKey_ne (uid key : String) (request : ClientRequest) :
    resourceManagerRequestKey uid key ≠ sessionRequestId sha256 request := by
  intro h
  have hlist := toList_resourceManagerRequestKey uid key
  rw [h, toList_sessionRequestId] at hlist
  simp at hlist

end

/-! ## The invariant -/

section

variable (sha256 : String → String)

/-- The run of a request belongs to the session it names. -/
structure OfSession (db : Db) (request : ClientRequest) (runId targetSessionId : String) :
    Prop where
  names : request.runId = some runId
  target : requirePayloadString request "targetSessionId" = .ok targetSessionId
  run : ∃ run, workflowRunRow db runId = some run ∧
    run.binding = some ⟨targetSessionId, .interactive⟩

/-- A request names no other scope. -/
def MayName (request : ClientRequest) (scopeId : String) : Prop :=
  ∃ requested, requestedScopeId request = .ok requested ∧
    ∀ named, requested = some named → scopeId = named

/-- The change number that a request expects, if any, is one. -/
def HasExpected (request : ClientRequest) : Prop :=
  ∀ value, payloadMember request "expectedChangeNumber" = some value →
    ∃ n, requireNonNegativeInteger value "expectedChangeNumber" = .ok n

/-- A change in the history is the one that a request asks for. -/
structure MadeFor (db : Db) (store : SettingsStore) (request : ClientRequest)
    (change : SettingsChangeRow) : Prop where
  made : ∃ runId targetSessionId patch, OfSession db request runId targetSessionId ∧
    validateJsonPatch (requestedPatch request) = .ok patch ∧
    jsonHash sha256 change.patch = jsonHash sha256 (patchJson patch) ∧
    change.actor = { type := .session, id := some targetSessionId } ∧
    change.source = "pi-session" ∧
    ∃ row, store.scopes.get? change.scopeId = some row ∧ row.activeRunId = runId
  scope : MayName request change.scopeId
  expected : HasExpected request

/-- What an operation has read holds still. -/
structure Opens (db : Db) (store : SettingsStore) (request : ClientRequest)
    (opened : OpenedChange) : Prop where
  session : OfSession db request opened.runId opened.targetSessionId
  scope : ∃ row, store.scopes.get? opened.scopeId = some row ∧ row.activeRunId = opened.runId
  requested : MayName request opened.scopeId

/-- The request of a call of the store is that of an execution. -/
structure CalledFor (execution : SettingsExecution) (request : SettingsChangeRequest) : Prop where
  requestId : request.requestId = sessionRequestId sha256 execution.request
  scopeId : request.scopeId = execution.opened.scopeId
  expected : request.expectedChangeNumber ≠ none
  actor : request.actor = { type := .session, id := some execution.opened.targetSessionId }
  source : request.source = "pi-session"
  patch : ∃ patch, validateJsonPatch (requestedPatch execution.request) = .ok patch ∧
    request.patch = patchJson patch
  hasExpected : HasExpected execution.request

/-- The changes of a request in the history. -/
def IsChangeOf (store : SettingsStore) (request : ClientRequest) (change : SettingsChangeRow) :
    Prop :=
  change ∈ store.changes ∧ change.requestId = sessionRequestId sha256 request

/-- What the call of an execution has come to. -/
def Returns (store : SettingsStore) (execution : SettingsExecution) : CallPhase → Prop
  | .awaiting _ _ _ | .returned (.error _) =>
      ∀ change, ¬ IsChangeOf sha256 store execution.request change
  | .returned (.ok result) => ∃ change, IsChangeOf sha256 store execution.request change ∧
      result.scope.changeNumber = change.changeNumber ∧
      (execution.wasApplied = true → result.adopted = true)

/-- An execution and the call it has made, if it has. -/
structure Executes (requests : List ClientRequest) (s : SettingsServer)
    (execution : SettingsExecution) : Prop where
  request : execution.request ∈ requests
  operation : execution.request.operation = "run.changeSettings"
  opens : Opens s.state.db s.system.store execution.request execution.opened
  free : commandForKey s.state.commands execution.request.clientId
    execution.request.idempotencyKey = none
  placed : ∀ change, IsChangeOf sha256 s.system.store execution.request change →
    change.scopeId = execution.opened.scopeId
  applied : execution.wasApplied = true →
    ∃ change, IsChangeOf sha256 s.system.store execution.request change
  called : ∀ index, execution.phase = .changing index →
    ∃ call, s.system.calls[index]? = some call ∧ CalledFor sha256 execution call.request ∧
      Returns sha256 s.system.store execution call.phase

/-- A response names the change of its request, and says that it was there. -/
def AnswersWith (store : SettingsStore) (answer : SettingsAnswer) : Prop :=
  ∃ change runId adopted, IsChangeOf sha256 store answer.request change ∧
    answer.request.runId = some runId ∧
    answer.response.receipt.map storedJson =
      some (storedJson (settingsReceipt runId change.scopeId change.changeNumber adopted)) ∧
    (answer.response.outcome = .adopted ∨ answer.response.outcome = .accepted ∧ adopted = true)

/-- A receipt is for the change of its command. -/
def Receipts (store : SettingsStore) (request : ClientRequest) (row : CommandRow) : Prop :=
  ∀ change, IsChangeOf sha256 store request change → row.outcome = .accepted ∧
    ∃ runId adopted, request.runId = some runId ∧ row.receipt =
      some (storedJson (settingsReceipt runId change.scopeId change.changeNumber adopted))

/-- The history, the executions and the receipts agree. -/
structure Repeatable (requests : List ClientRequest) (s : SettingsServer) : Prop where
  sound : s.system.Sound sha256
  made : ∀ request ∈ requests, ∀ change, IsChangeOf sha256 s.system.store request change →
    MadeFor sha256 s.state.db s.system.store request change
  once : ∀ request ∈ requests, ∀ a b, IsChangeOf sha256 s.system.store request a →
    IsChangeOf sha256 s.system.store request b → a = b
  executes : ∀ execution ∈ s.inFlight, Executes sha256 requests s execution
  alone : (s.inFlight.map SettingsExecution.request).Pairwise fun a b => sameCommand a b = false
  owned : ∀ index definition request attempt patch read,
    s.system.calls[index]? = some ⟨definition, request, .awaiting attempt patch read⟩ →
    ∀ r ∈ requests, request.requestId = sessionRequestId sha256 r →
      ∃ execution ∈ s.inFlight, execution.phase = .changing index
  keyed : ∀ request ∈ requests, ∀ row, s.state.commands.get? request.requestId = some row →
    row.clientId = request.clientId ∧ row.idempotencyKey = request.idempotencyKey
  receipts : ∀ request ∈ requests, ∀ id row, s.state.commands.get? id = some row →
    row.clientId = request.clientId → row.idempotencyKey = request.idempotencyKey →
    Receipts sha256 s.system.store request row
  waits : ∀ e ∈ s.waiting, e.1 ∈ requests ∧ ∃ execution ∈ s.inFlight,
    sameCommand execution.request e.1 = true ∧
    (e.2 = true → (∃ change, IsChangeOf sha256 s.system.store e.1 change) ∧
      clientRequestFingerprint sha256 execution.request = clientRequestFingerprint sha256 e.1)
  log : ∀ answer ∈ s.log, answer.wasApplied = true → answer.response.outcome ≠ .unavailable →
    AnswersWith sha256 s.system.store answer

end

section

variable {sha256 : String → String} {requests : List ClientRequest} {s : SettingsServer}

/-! ## What the invariant says where only part of the state moves -/

theorem Repeats.ofSession {a b : ClientRequest} (h : Repeats a b) {db : Db}
    {runId targetSessionId : String} (hsession : OfSession db a runId targetSessionId) :
    OfSession db b runId targetSessionId where
  names := h.runId ▸ hsession.names
  target := by
    have hkey : "targetSessionId" ≠ "coordinatorEpoch" := by simp
    rw [← h.requirePayloadString hkey]
    exact hsession.target
  run := hsession.run

theorem Repeats.mayName {a b : ClientRequest} (h : Repeats a b) {scopeId : String}
    (hname : MayName a scopeId) : MayName b scopeId := by
  rw [MayName, ← h.requestedScopeId]
  exact hname

theorem Repeats.hasExpected {a b : ClientRequest} (h : Repeats a b) (hexpected : HasExpected a) :
    HasExpected b := by
  intro value hvalue
  rw [← h.members "expectedChangeNumber" (by simp)] at hvalue
  exact hexpected value hvalue

/-- The system moves on without a session's call: the changes of sessions stay, and so
do their calls. -/
structure Aside (sha256 : String → String) (requests : List ClientRequest) (s : SettingsServer)
    (system : SettingsSystem) : Prop where
  sound : system.Sound sha256
  keeps : KeepsScopes s.system.store system.store
  changes : ∀ request ∈ requests, ∀ change,
    IsChangeOf sha256 system.store request change ↔ IsChangeOf sha256 s.system.store request change
  called : ∀ (index : Nat) call, s.system.calls[index]? = some call →
    (∃ r ∈ requests, call.request.requestId = sessionRequestId sha256 r) →
    system.calls[index]? = some call
  awaiting : ∀ (index : Nat) call, system.calls[index]? = some call →
    (∃ r ∈ requests, call.request.requestId = sessionRequestId sha256 r) →
    s.system.calls[index]? = some call

theorem MadeFor.keeps {db : Db} {store store' : SettingsStore} {request : ClientRequest}
    {change : SettingsChangeRow} (hkeeps : KeepsScopes store store')
    (h : MadeFor sha256 db store request change) : MadeFor sha256 db store' request change := by
  obtain ⟨⟨runId, target, patch, hsession, hpatch, hhash, hactor, hsource, row, hrow, hactive⟩,
    hscope, hexpected⟩ := h
  obtain ⟨row', hrow', hactive'⟩ := hkeeps _ row hrow
  exact ⟨⟨runId, target, patch, hsession, hpatch, hhash, hactor, hsource, row', hrow',
    hactive'.trans hactive⟩, hscope, hexpected⟩

theorem Opens.keeps {db : Db} {store store' : SettingsStore} {request : ClientRequest}
    {opened : OpenedChange} (hkeeps : KeepsScopes store store')
    (h : Opens db store request opened) : Opens db store' request opened := by
  obtain ⟨row, hrow, hactive⟩ := h.scope
  obtain ⟨row', hrow', hactive'⟩ := hkeeps _ row hrow
  exact ⟨h.session, ⟨row', hrow', hactive'.trans hactive⟩, h.requested⟩

theorem Returns.congr {store store' : SettingsStore} {execution : SettingsExecution}
    {phase : CallPhase}
    (hchanges : ∀ change, IsChangeOf sha256 store' execution.request change ↔
      IsChangeOf sha256 store execution.request change)
    (h : Returns sha256 store execution phase) : Returns sha256 store' execution phase := by
  cases phase with
  | awaiting _ _ _ => exact fun change hchange => h change ((hchanges change).1 hchange)
  | returned result =>
      cases result with
      | error e => exact fun change hchange => h change ((hchanges change).1 hchange)
      | ok result =>
          obtain ⟨change, hchange, hrest⟩ := h
          exact ⟨change, (hchanges change).2 hchange, hrest⟩

theorem AnswersWith.mono {store store' : SettingsStore} {answer : SettingsAnswer}
    (hchanges : ∀ change ∈ store.changes, change ∈ store'.changes)
    (h : AnswersWith sha256 store answer) : AnswersWith sha256 store' answer := by
  obtain ⟨change, runId, adopted, ⟨hmem, hid⟩, hrest⟩ := h
  exact ⟨change, runId, adopted, ⟨hchanges change hmem, hid⟩, hrest⟩

theorem Executes.of_eq {s' : SettingsServer} {execution : SettingsExecution}
    (h : Executes sha256 requests s execution) (hstate : s'.state = s.state)
    (hsystem : s'.system = s.system) : Executes sha256 requests s' execution where
  request := h.request
  operation := h.operation
  opens := hstate ▸ hsystem ▸ h.opens
  free := hstate ▸ h.free
  placed := hsystem ▸ h.placed
  applied := hsystem ▸ h.applied
  called := hsystem ▸ h.called

theorem Executes.aside {system : SettingsSystem} (haside : Aside sha256 requests s system)
    {execution : SettingsExecution} (h : Executes sha256 requests s execution) :
    Executes sha256 requests { s with system } execution where
  request := h.request
  operation := h.operation
  opens := h.opens.keeps haside.keeps
  free := h.free
  placed := fun change hchange =>
    h.placed change ((haside.changes _ h.request change).1 hchange)
  applied := by
    intro happlied
    obtain ⟨change, hchange⟩ := h.applied happlied
    exact ⟨change, (haside.changes _ h.request change).2 hchange⟩
  called := by
    intro index hphase
    obtain ⟨call, hcall, hfor, hreturns⟩ := h.called index hphase
    exact ⟨call, haside.called index call hcall ⟨_, h.request, hfor.requestId⟩, hfor,
      hreturns.congr (haside.changes _ h.request)⟩

theorem Repeatable.aside (h : Repeatable sha256 requests s) {system : SettingsSystem}
    (haside : Aside sha256 requests s system)
    (hmono : ∀ change ∈ s.system.store.changes, change ∈ system.store.changes) :
    Repeatable sha256 requests { s with system } where
  sound := haside.sound
  made := fun request hrequest change hchange =>
    (h.made request hrequest change ((haside.changes request hrequest change).1 hchange)).keeps
      haside.keeps
  once := fun request hrequest a b ha hb =>
    h.once request hrequest a b ((haside.changes request hrequest a).1 ha)
      ((haside.changes request hrequest b).1 hb)
  executes := fun execution hexecution => (h.executes execution hexecution).aside haside
  alone := h.alone
  owned := fun index definition request attempt patch read hcall r hr hid =>
    h.owned index definition request attempt patch read
      (haside.awaiting index _ hcall ⟨r, hr, hid⟩) r hr hid
  keyed := h.keyed
  receipts := by
    intro request hrequest id row hrow hclient hkey change hchange
    exact h.receipts request hrequest id row hrow hclient hkey change
      ((haside.changes request hrequest change).1 hchange)
  waits := by
    intro e he
    obtain ⟨hrequest, execution, hexecution, hsame, hwait⟩ := h.waits e he
    refine ⟨hrequest, execution, hexecution, hsame, fun happlied => ?_⟩
    obtain ⟨⟨change, hchange⟩, hfingerprint⟩ := hwait happlied
    exact ⟨⟨change, (haside.changes _ hrequest change).2 hchange⟩, hfingerprint⟩
  log := fun answer hanswer happlied hthere => (h.log answer hanswer happlied hthere).mono hmono

/-! ## Turns of the store's calls -/

/-- A command has one execution. -/
theorem Repeatable.unique (hsame : Consistent sha256 requests) (h : Repeatable sha256 requests s)
    {a b : SettingsExecution} (ha : a ∈ s.inFlight) (hb : b ∈ s.inFlight)
    (hid : sessionRequestId sha256 a.request = sessionRequestId sha256 b.request) : a = b := by
  have hrepeats := hsame _ (h.executes a ha).request _ (h.executes b hb).request (.inl hid)
  have hpairs : ∀ a ∈ s.inFlight, ∀ b ∈ s.inFlight,
      sameCommand a.request b.request = true → a = b := by
    refine List.Pairwise.forall_of_forall_of_flip (fun _ _ _ => rfl) ?_ ?_
    · exact (List.pairwise_map.1 h.alone).imp fun hne heq => absurd (hne.symm.trans heq) (by decide)
    · refine (List.pairwise_map.1 h.alone).imp fun hne heq => ?_
      rw [sameCommand_comm, hne] at heq
      cases heq
  exact hpairs a ha b hb hrepeats.sameCommand

/-- A session's call that waits has an execution, and its change is not there yet. -/
theorem Repeatable.awaiting (h : Repeatable sha256 requests s) {index attempt : Nat}
    {definition : SettingsDefinition} {request : SettingsChangeRequest}
    {patch : List JsonPatchOperation} {read : SettingsScopeRow}
    (hcall : s.system.calls[index]? = some ⟨definition, request, .awaiting attempt patch read⟩)
    {r : ClientRequest} (hr : r ∈ requests) (hid : request.requestId = sessionRequestId sha256 r) :
    ∃ execution ∈ s.inFlight, execution.phase = .changing index ∧
      CalledFor sha256 execution request ∧
      ∀ change, ¬ IsChangeOf sha256 s.system.store execution.request change := by
  obtain ⟨execution, hexecution, hphase⟩ :=
    h.owned index definition request attempt patch read hcall r hr hid
  obtain ⟨call, hcall', hfor, hreturns⟩ := (h.executes execution hexecution).called index hphase
  cases hcall.symm.trans hcall'
  exact ⟨execution, hexecution, hphase, hfor, hreturns⟩

/-- A session's call returns without a change. -/
theorem Repeatable.refused (h : Repeatable sha256 requests s) {index attempt : Nat}
    {definition : SettingsDefinition} {request : SettingsChangeRequest}
    {patch : List JsonPatchOperation} {read : SettingsScopeRow} {e : StoreError}
    (hcall : s.system.calls[index]? = some ⟨definition, request, .awaiting attempt patch read⟩)
    {system : SettingsSystem} (hstore : system.store = s.system.store)
    (hcalls : system.calls = s.system.calls.set index ⟨definition, request, .returned (.error e)⟩)
    (hsound : system.Sound sha256) : Repeatable sha256 requests { s with system } where
  sound := hsound
  made := hstore ▸ h.made
  once := hstore ▸ h.once
  executes := by
    intro execution hexecution
    have hold := h.executes execution hexecution
    refine ⟨hold.request, hold.operation, hstore ▸ hold.opens, hold.free,
      hstore ▸ hold.placed, hstore ▸ hold.applied, ?_⟩
    intro other hphase
    obtain ⟨call, hother, hfor, hreturns⟩ := hold.called other hphase
    show ∃ call, system.calls[other]? = some call ∧ _ ∧ Returns sha256 system.store _ _
    rw [hcalls, hstore]
    by_cases heq : index = other
    · subst heq
      cases hcall.symm.trans hother
      obtain ⟨hlt, -⟩ := List.getElem?_eq_some_iff.1 hcall
      exact ⟨_, List.getElem?_set_self hlt, hfor, hreturns⟩
    · exact ⟨call, by rw [List.getElem?_set_ne heq, hother], hfor, hreturns⟩
  alone := h.alone
  owned := by
    intro other definition' request' attempt' patch' read' hother r hr hid
    rw [hcalls] at hother
    by_cases heq : index = other
    · subst heq
      obtain ⟨hlt, -⟩ := List.getElem?_eq_some_iff.1 hcall
      rw [List.getElem?_set_self hlt] at hother
      cases hother
    · rw [List.getElem?_set_ne heq] at hother
      exact h.owned other definition' request' attempt' patch' read' hother r hr hid
  keyed := h.keyed
  receipts := hstore ▸ h.receipts
  waits := hstore ▸ h.waits
  log := hstore ▸ h.log

/-- A session's call makes its change. -/
theorem Repeatable.commits (hsame : Consistent sha256 requests) (h : Repeatable sha256 requests s)
    {index attempt : Nat} {definition : SettingsDefinition} {request : SettingsChangeRequest}
    {patch : List JsonPatchOperation} {read : SettingsScopeRow} {change : SettingsChangeRow}
    {result : SettingsChangeResult}
    (hcall : s.system.calls[index]? = some ⟨definition, request, .awaiting attempt patch read⟩)
    {r : ClientRequest} (hr : r ∈ requests) (hid : request.requestId = sessionRequestId sha256 r)
    {system : SettingsSystem} (hkeeps : KeepsScopes s.system.store system.store)
    (hcalls : system.calls = s.system.calls.set index ⟨definition, request, .returned (.ok result)⟩)
    (hchanges : system.store.changes = s.system.store.changes ++ [change])
    (hcommitted : Committed sha256 request patch change result) (hsound : system.Sound sha256) :
    Repeatable sha256 requests { s with system } := by
  obtain ⟨execution, hexecution, hphase, hfor, hnone⟩ := h.awaiting hcall hr hid
  have hold := h.executes execution hexecution
  have hchangeId : change.requestId = sessionRequestId sha256 execution.request :=
    hcommitted.requestId.trans hfor.requestId
  have hmono : ∀ c ∈ s.system.store.changes, c ∈ system.store.changes := by
    intro c hc
    rw [hchanges]
    exact List.mem_append_left _ hc
  have hnew : ∀ {r' c}, IsChangeOf sha256 system.store r' c →
      IsChangeOf sha256 s.system.store r' c ∨ c = change := by
    rintro r' c ⟨hmem, hrequest⟩
    rw [hchanges] at hmem
    rcases List.mem_append.1 hmem with hmem | hmem
    · exact .inl ⟨hmem, hrequest⟩
    · exact .inr (List.mem_singleton.1 hmem)
  have hkept : ∀ {r' c}, IsChangeOf sha256 s.system.store r' c →
      IsChangeOf sha256 system.store r' c :=
    fun hchange => ⟨hmono _ hchange.1, hchange.2⟩
  -- The new change is of the execution's command alone.
  have hof : ∀ {r'}, r' ∈ requests → IsChangeOf sha256 system.store r' change →
      Repeats execution.request r' := fun hr' hchange =>
    hsame _ hold.request _ hr' (.inl (hchangeId.symm.trans hchange.2))
  have hfirst : ∀ {r' c}, r' ∈ requests → IsChangeOf sha256 system.store r' change →
      ¬ IsChangeOf sha256 s.system.store r' c := fun hr' hchange hother =>
    hnone _ ⟨hother.1, hother.2.trans (hof hr' hchange).sessionRequestId.symm⟩
  have hmine : ∀ {x}, x ∈ s.inFlight → IsChangeOf sha256 system.store x.request change →
      x = execution := fun hx hchange =>
    h.unique hsame hx hexecution (hchange.2.symm.trans hchangeId)
  refine ⟨hsound, ?_, ?_, ?_, h.alone, ?_, h.keyed, ?_, ?_, ?_⟩
  · intro r' hr' c hc
    rcases hnew hc with hc' | rfl
    · exact (h.made r' hr' c hc').keeps hkeeps
    · have hrepeats := hof hr' hc
      obtain ⟨patch', hpatch', hrequestPatch⟩ := hfor.patch
      have hcheck : checkSettingsRequest request = .ok patch :=
        (h.sound.2 _ (List.mem_of_getElem? hcall)).1
      have heq : patch = patch' := by
        have hvalid := (checkSettingsRequest_ok.1 hcheck).2.2
        rw [hrequestPatch, validateJsonPatch_patchJson hpatch'] at hvalid
        exact (Except.ok.inj hvalid).symm
      obtain ⟨hhash, hactor, hsource⟩ := hcommitted.same
      obtain ⟨row, hrow, hactive⟩ := (hold.opens.keeps hkeeps).scope
      refine ⟨⟨execution.opened.runId, execution.opened.targetSessionId, patch,
        hrepeats.ofSession hold.opens.session, ?_, hhash, hactor.trans hfor.actor,
        hsource.trans hfor.source, row, ?_, hactive⟩, ?_, hrepeats.hasExpected hfor.hasExpected⟩
      · rw [← hrepeats.requestedPatch, heq]
        exact hpatch'
      · rw [hcommitted.scopeId, hfor.scopeId]
        exact hrow
      · rw [hcommitted.scopeId, hfor.scopeId]
        exact hrepeats.mayName hold.opens.requested
  · intro r' hr' a b ha hb
    rcases hnew ha with ha' | rfl
    · rcases hnew hb with hb' | rfl
      · exact h.once r' hr' a b ha' hb'
      · exact absurd ha' (hfirst hr' hb)
    · rcases hnew hb with hb' | rfl
      · exact absurd hb' (hfirst hr' ha)
      · rfl
  · intro x hx
    have hxold := h.executes x hx
    refine ⟨hxold.request, hxold.operation, hxold.opens.keeps hkeeps, hxold.free, ?_, ?_, ?_⟩
    · intro c hc
      rcases hnew hc with hc' | rfl
      · exact hxold.placed c hc'
      · rw [hmine hx hc]
        exact hcommitted.scopeId.trans hfor.scopeId
    · intro happlied
      obtain ⟨c, hc⟩ := hxold.applied happlied
      exact ⟨c, hkept hc⟩
    · intro other hother
      obtain ⟨call, hcall', hfor', hreturns⟩ := hxold.called other hother
      show ∃ call, system.calls[other]? = some call ∧ _ ∧ _
      rw [hcalls]
      by_cases heq : index = other
      · subst heq
        cases hcall.symm.trans hcall'
        obtain ⟨hlt, -⟩ := List.getElem?_eq_some_iff.1 hcall
        refine ⟨_, List.getElem?_set_self hlt, hfor', change, ⟨?_, ?_⟩, hcommitted.number, ?_⟩
        · rw [hchanges]
          simp
        · exact hcommitted.requestId.trans hfor'.requestId
        · intro happlied
          obtain ⟨c, hc⟩ := hxold.applied happlied
          exact absurd hc (hreturns c)
      · refine ⟨call, by rw [List.getElem?_set_ne heq, hcall'], hfor', ?_⟩
        refine hreturns.congr fun c => ⟨fun hc => ?_, hkept⟩
        rcases hnew hc with hc' | rfl
        · exact hc'
        · rw [hmine hx hc, hphase] at hother
          exact absurd (SettingsPhase.changing.inj hother) heq
  · intro other definition' request' attempt' patch' read' hother r' hr' hid'
    rw [hcalls] at hother
    by_cases heq : index = other
    · subst heq
      obtain ⟨hlt, -⟩ := List.getElem?_eq_some_iff.1 hcall
      rw [List.getElem?_set_self hlt] at hother
      cases hother
    · rw [List.getElem?_set_ne heq] at hother
      exact h.owned other definition' request' attempt' patch' read' hother r' hr' hid'
  · intro r' hr' id row hrow hclient hkey c hc
    rcases hnew hc with hc' | rfl
    · exact h.receipts r' hr' id row hrow hclient hkey c hc'
    · -- A command whose receipt is there has no execution.
      have hrepeats := hof hr' hc
      have hfree := Table.find?_none.1 hold.free id row hrow
      rw [hclient, hkey, hrepeats.clientId, hrepeats.idempotencyKey] at hfree
      simp at hfree
  · intro e he
    obtain ⟨hrequest, x, hx, hcommand, hwait⟩ := h.waits e he
    refine ⟨hrequest, x, hx, hcommand, fun happlied => ?_⟩
    obtain ⟨⟨c, hc⟩, hfingerprint⟩ := hwait happlied
    exact ⟨⟨c, hkept hc⟩, hfingerprint⟩
  · exact fun answer hanswer happlied hthere => (h.log answer hanswer happlied hthere).mono hmono

/-- A write that adds no change and moves no call. -/
theorem Repeatable.still (h : Repeatable sha256 requests s) {system : SettingsSystem}
    (hsound : system.Sound sha256) (hkeeps : KeepsScopes s.system.store system.store)
    (hchanges : system.store.changes = s.system.store.changes)
    (hcalls : system.calls = s.system.calls) : Repeatable sha256 requests { s with system } := by
  refine h.aside ⟨hsound, hkeeps, ?_, ?_, ?_⟩ ?_
  · intro request _ change
    rw [IsChangeOf, IsChangeOf, hchanges]
  · intro index call hcall _
    rw [hcalls, hcall]
  · intro index call hcall _
    rw [← hcalls, hcall]
  · intro change hchange
    rw [hchanges]
    exact hchange

/-- A call of others is added. -/
theorem Repeatable.adds (h : Repeatable sha256 requests s) {call : SettingsCall}
    (hother : ∀ r ∈ requests, call.request.requestId ≠ sessionRequestId sha256 r)
    (hsound : SettingsSystem.Sound sha256 ⟨s.system.store, s.system.calls ++ [call]⟩) :
    Repeatable sha256 requests
      { s with system := ⟨s.system.store, s.system.calls ++ [call]⟩ } := by
  refine h.aside ⟨hsound, .of_eq rfl, fun _ _ _ => Iff.rfl, ?_, ?_⟩ fun _ hchange => hchange
  · intro index old hold _
    obtain ⟨hlt, -⟩ := List.getElem?_eq_some_iff.1 hold
    exact (List.getElem?_append_left hlt).trans hold
  · rintro index old hold ⟨r, hr, hid⟩
    by_cases hlt : index < s.system.calls.length
    · exact (List.getElem?_append_left hlt).symm.trans hold
    · have hlast := (List.getElem?_append_right (Nat.le_of_not_lt hlt)).symm.trans hold
      rw [List.mem_singleton.1 (List.mem_of_getElem? hlast)] at hid
      exact absurd hid (hother r hr)

/-- A turn of a call of others. -/
theorem Repeatable.others (h : Repeatable sha256 requests s) {index : Nat} {call : SettingsCall}
    (hcall : s.system.calls[index]? = some call) (call' : SettingsCall)
    (hrequest : call'.request = call.request)
    (hother : ∀ r ∈ requests, call.request.requestId ≠ sessionRequestId sha256 r)
    {system : SettingsSystem} (hcalls : system.calls = s.system.calls.set index call')
    (hkeeps : KeepsScopes s.system.store system.store) {added : List SettingsChangeRow}
    (hchanges : system.store.changes = s.system.store.changes ++ added)
    (hadded : ∀ change ∈ added, change.requestId = call.request.requestId)
    (hsound : system.Sound sha256) : Repeatable sha256 requests { s with system } := by
  refine h.aside ⟨hsound, hkeeps, ?_, ?_, ?_⟩ ?_
  · intro r hr change
    rw [IsChangeOf, IsChangeOf, hchanges, List.mem_append]
    constructor
    · rintro ⟨hmem | hmem, hid⟩
      · exact ⟨hmem, hid⟩
      · exact absurd ((hadded change hmem).symm.trans hid) (hother r hr)
    · rintro ⟨hmem, hid⟩
      exact ⟨.inl hmem, hid⟩
  · rintro other old hold ⟨r, hr, hid⟩
    rw [hcalls, List.getElem?_set_ne, hold]
    rintro rfl
    cases hcall.symm.trans hold
    exact hother r hr hid
  · rintro other old hold ⟨r, hr, hid⟩
    rw [hcalls] at hold
    by_cases heq : index = other
    · subst heq
      obtain ⟨hlt, -⟩ := List.getElem?_eq_some_iff.1 hcall
      rw [List.getElem?_set_self hlt] at hold
      cases hold
      exact absurd (hrequest ▸ hid) (hother r hr)
    · rwa [List.getElem?_set_ne heq] at hold
  · intro change hchange
    rw [hchanges]
    exact List.mem_append_left _ hchange

/-- A turn of any call. -/
theorem Repeatable.resume (hsame : Consistent sha256 requests) (h : Repeatable sha256 requests s)
    (index : Nat) (changeId : String) (now : Int) :
    Repeatable sha256 requests
      { s with system := settingsStep sha256 s.system (.resume index changeId now) } := by
  have hsound := settingsStep_sound h.sound (.resume index changeId now)
  revert hsound
  simp only [settingsStep]
  split
  · next definition request attempt patch read hcall =>
      have hcall' : s.system.calls[index]? =
        some ⟨definition, request, .awaiting attempt patch read⟩ := hcall
      intro hsound
      by_cases hsession : ∃ r ∈ requests, request.requestId = sessionRequestId sha256 r
      · obtain ⟨r, hr, hid⟩ := hsession
        obtain ⟨_, _, _, hfor, _⟩ := h.awaiting hcall' hr hid
        rcases resumeCall_writes h.sound.1 changeId now
          (h.sound.2 _ (List.mem_of_getElem? hcall')) with
          ⟨phase, hresume, hphase⟩ | ⟨store', change, result, hresume, hchanges, hkeeps, hcommitted⟩
        · obtain ⟨e, rfl⟩ := hphase hfor.expected
          rw [hresume] at hsound ⊢
          exact h.refused hcall' rfl rfl hsound
        · rw [hresume] at hsound ⊢
          exact h.commits hsame hcall' hr hid hkeeps rfl hchanges hcommitted hsound
      · have hother : ∀ r ∈ requests, request.requestId ≠ sessionRequestId sha256 r :=
          fun r hr hid => hsession ⟨r, hr, hid⟩
        rcases resumeCall_writes h.sound.1 changeId now
          (h.sound.2 _ (List.mem_of_getElem? hcall')) with
          ⟨phase, hresume, _⟩ | ⟨store', change, result, hresume, hchanges, hkeeps, hcommitted⟩
        · rw [hresume] at hsound ⊢
          exact h.others hcall' ⟨definition, request, phase⟩ rfl hother rfl (.of_eq rfl)
            (List.append_nil _).symm (fun _ hmem => absurd hmem List.not_mem_nil) hsound
        · rw [hresume] at hsound ⊢
          refine h.others hcall' ⟨definition, request, .returned (.ok result)⟩ rfl hother rfl hkeeps
            hchanges ?_ hsound
          intro c hc
          rw [List.mem_singleton.1 hc]
          exact hcommitted.requestId
  · intro _
    exact h

/-- A write of others, or a turn of any call. -/
theorem Repeatable.write (hsame : Consistent sha256 requests) (h : Repeatable sha256 requests s)
    (write : SettingsWrite) :
    Repeatable sha256 requests { s with system := settingsStep sha256 s.system write.action } := by
  have hsound := settingsStep_sound h.sound write.action
  cases write with
  | manage uid key definition request =>
      exact h.adds (fun r _ => resourceManagerRequestKey_ne uid key r) hsound
  | resume index changeId now => exact h.resume hsame index changeId now
  | ensureScope runId mountPath invocation settings now =>
      revert hsound
      simp only [SettingsWrite.action, settingsStep]
      split
      · next store' hensure =>
          intro hsound
          obtain ⟨hkeeps, hchanges⟩ := ensureSettingsScope_keeps hensure
          exact h.still hsound hkeeps hchanges rfl
      · exact fun _ => h
  | runStatus runId status => exact h.still hsound (.of_eq rfl) rfl rfl

end

end PiWorkflows
