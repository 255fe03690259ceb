import PiWorkflows.Proofs.RepeatableSettings

/-!
# Executions of settings changes

An execution ends with a receipt, which answers it and those that wait for it. It
keeps the history and the receipts together (`Repeatable`) as long as an execution
whose change is there already is proposed again and finds the scope where its change
left it; what makes that so is asked of each step on its own.
-/

namespace PiWorkflows

open Fallible

section

variable {sha256 : String → String} {requests : List ClientRequest} {s : SettingsServer}

/-! ## Receipts -/

theorem storedJson_idem (value : Json) : storedJson (storedJson value) = storedJson value :=
  normalizeJson_idem value

/-- A receipt with the fingerprint of the request answers it. -/
theorem Repeatable.adopts (h : Repeatable sha256 requests s) {request : ClientRequest}
    (hrequest : request ∈ requests) {reply : ClientResponse} {wasApplied : Bool}
    (hadopt : adoptCommand sha256 s.state request = some reply)
    (hfingerprint : ∀ id row, s.state.commands.get? id = some row →
      row.clientId = request.clientId → row.idempotencyKey = request.idempotencyKey →
      row.requestFingerprint = clientRequestFingerprint sha256 request)
    {change : SettingsChangeRow} (hchange : IsChangeOf sha256 s.system.store request change) :
    AnswersWith sha256 s.system.store ⟨request, reply, wasApplied⟩ := by
  obtain ⟨id, row, hrow, hfound, hreply⟩ := adoptCommand_some hadopt
  obtain ⟨hclient, hkey⟩ : row.clientId = request.clientId ∧
      row.idempotencyKey = request.idempotencyKey := by
    rcases hfound with rfl | ⟨_, hclient, hkey⟩
    · exact h.keyed request hrequest row hrow
    · exact ⟨hclient, hkey⟩
  have hmatches := hfingerprint id row hrow hclient hkey
  obtain ⟨houtcome, runId, adopted, hrun, hreceipt⟩ :=
    h.receipts request hrequest id row hrow hclient hkey change hchange
  rcases hreply with ⟨_, rfl⟩ | ⟨hother, _⟩
  · refine ⟨change, runId, adopted, hchange, hrun, ?_, .inl ?_⟩
    · show row.receipt.map storedJson = _
      rw [hreceipt, Option.map_some, storedJson_idem]
    · show adoptedOutcome row.outcome = .adopted
      rw [houtcome]
      rfl
  · exact absurd hmatches hother

/-- Without a receipt under its key, a request finds none. -/
theorem Repeatable.adopts_none (h : Repeatable sha256 requests s) {request : ClientRequest}
    (hrequest : request ∈ requests)
    (hfree : commandForKey s.state.commands request.clientId request.idempotencyKey = none) :
    adoptCommand sha256 s.state request = none := by
  cases hadopt : adoptCommand sha256 s.state request with
  | none => rfl
  | some reply =>
      obtain ⟨id, row, hrow, hfound, _⟩ := adoptCommand_some hadopt
      have hkeys : row.clientId = request.clientId ∧
          row.idempotencyKey = request.idempotencyKey := by
        rcases hfound with rfl | ⟨_, hkeys⟩
        · exact h.keyed request hrequest row hrow
        · exact hkeys
      exact absurd hkeys (of_decide_eq_false (Table.find?_none.1 hfree id row hrow))

theorem free_of_adopts_none {state : ServerState} {request : ClientRequest}
    (h : adoptCommand sha256 state request = none) :
    commandForKey state.commands request.clientId request.idempotencyKey = none := by
  unfold adoptCommand at h
  split at h
  · cases h
  · exact Option.map_eq_none_iff.1 h

theorem insertCommand_ok {state state' : ServerState} {request : ClientRequest} {epoch : Int}
    {result : CommandResult} (h : insertCommand sha256 state request epoch result = .ok state') :
    state'.db = state.db ∧ state.commands.insert? request.requestId
      (receiptRow sha256 request result) = some state'.commands := by
  simp only [insertCommand, bind_ok, require_ok, orThrow_ok, Except.ok.injEq] at h
  obtain ⟨_, _, _, _, _, _, _, _, _, _, commands, hinsert, rfl⟩ := h
  exact ⟨rfl, hinsert⟩

/-- The receipt of a command that ran can be stored. -/
theorem insertCommand_some {state : ServerState} {request : ClientRequest} {epoch : Nat}
    {result : CommandResult} {runId : String}
    (hoperation : request.operation = "run.changeSettings")
    (hrevision : result.revision = none) (hrun : request.runId = some runId)
    (hthere : (state.db.runs.get? runId).isSome = true)
    (hfree : commandForKey state.commands request.clientId request.idempotencyKey = none)
    (hid : state.commands.get? request.requestId = none) :
    ∃ state', insertCommand sha256 state request (epoch + 1) result = .ok state' := by
  have hinsert : ∃ commands, state.commands.insert? request.requestId
      (receiptRow sha256 request result) = some commands := by
    rw [Table.insert?, dif_pos hid]
    exact ⟨_, rfl⟩
  obtain ⟨commands, hinsert⟩ := hinsert
  have hepoch : (0 : Int) < epoch + 1 := by omega
  refine ⟨{ state with commands }, ?_⟩
  simp only [insertCommand, bind_ok, require_ok, orThrow_ok, Except.ok.injEq]
  refine ⟨.unit, ?_, .unit, ?_, .unit, hepoch, .unit, hfree, .unit, ?_, commands, hinsert, rfl⟩
  · rw [hoperation]
    decide +kernel
  · rw [hrevision]
    rfl
  · rw [hrun]
    exact hthere

/-- What a command ends with, where its change is in the history. -/
def ResultOf (sha256 : String → String) (s : SettingsServer) (request : ClientRequest)
    (wasApplied : Bool) (result : CommandResult) : Prop :=
  ∀ change, IsChangeOf sha256 s.system.store request change →
    result.outcome = .accepted ∧ ∃ runId adopted, request.runId = some runId ∧
      (s.state.db.runs.get? runId).isSome = true ∧
      result.receipt = some (settingsReceipt runId change.scopeId change.changeNumber adopted) ∧
      (wasApplied = true → adopted = true)

/-- Those that wait for a command, at its end. -/
def MayAdopt (sha256 : String → String) (requests : List ClientRequest) (s : SettingsServer)
    (request : ClientRequest) : Prop :=
  ∀ e ∈ s.waiting, sameCommand request e.1 = true → e.1 ∈ requests ∧
    (e.2 = true → (∃ change, IsChangeOf sha256 s.system.store e.1 change) ∧
      clientRequestFingerprint sha256 request = clientRequestFingerprint sha256 e.1)

/-- The receipts with a new one. -/
theorem Repeatable.stores (hsame : Consistent sha256 requests) (h : Repeatable sha256 requests s)
    {request : ClientRequest} {wasApplied : Bool} {result : CommandResult} {state' : ServerState}
    (hrequest : request ∈ requests)
    (halone : ∀ x ∈ s.inFlight, sameCommand request x.request = false)
    (hresult : ResultOf sha256 s request wasApplied result)
    (hdb : state'.db = s.state.db)
    (hinsert : s.state.commands.insert? request.requestId (receiptRow sha256 request result) =
      some state'.commands) : Repeatable sha256 requests { s with state := state' } := by
  obtain ⟨hid, hget⟩ := Table.get?_of_insert? hinsert
  refine ⟨h.sound, hdb ▸ h.made, h.once, ?_, h.alone, h.owned, ?_, ?_, h.waits, h.log⟩
  · intro x hx
    have hold := h.executes x hx
    refine ⟨hold.request, hold.operation, hdb ▸ hold.opens, ?_, hold.placed, hold.applied,
      hold.called⟩
    refine Table.find?_none.2 fun id row hrow => ?_
    rw [hget id] at hrow
    split at hrow
    · cases hrow
      exact decide_eq_false fun hkeys =>
        absurd ((halone x hx).symm.trans (sameCommand_iff.2 hkeys)) (by decide)
    · exact Table.find?_none.1 hold.free id row hrow
  · intro r hr row hrow
    rw [hget] at hrow
    split at hrow
    · next heq =>
        cases hrow
        have hrepeats := hsame _ hrequest _ hr (.inr heq.symm)
        exact ⟨hrepeats.clientId, hrepeats.idempotencyKey⟩
    · exact h.keyed r hr row hrow
  · intro r hr id row hrow hclient hkey change hchange
    rw [hget] at hrow
    split at hrow
    · cases hrow
      have hcommand : sessionRequestId sha256 request = sessionRequestId sha256 r :=
        sessionRequestId_of_sameCommand (sameCommand_iff.2 ⟨hclient, hkey⟩)
      obtain ⟨houtcome, runId, adopted, hrun, _, hreceipt, _⟩ :=
        hresult change ⟨hchange.1, hchange.2.trans hcommand.symm⟩
      refine ⟨houtcome, runId, adopted, ?_, ?_⟩
      · rw [← (hsame _ hrequest _ hr (.inl hcommand)).runId]
        exact hrun
      · show result.receipt.map storedJson = _
        rw [hreceipt]
        rfl
    · exact h.receipts r hr id row hrow hclient hkey change hchange

/-- More answers. -/
theorem Repeatable.answers (h : Repeatable sha256 requests s) (log : List SettingsAnswer)
    (hlog : ∀ answer ∈ log, answer.wasApplied = true → answer.response.outcome ≠ .unavailable →
      AnswersWith sha256 s.system.store answer) :
    Repeatable sha256 requests { s with log := s.log ++ log } where
  sound := h.sound
  made := h.made
  once := h.once
  executes := fun x hx => (h.executes x hx).of_eq rfl rfl
  alone := h.alone
  owned := h.owned
  keyed := h.keyed
  receipts := h.receipts
  waits := h.waits
  log := by
    intro answer hanswer
    rcases List.mem_append.1 hanswer with hold | hnew
    · exact h.log answer hold
    · exact hlog answer hnew

/-- Fewer requests wait. -/
theorem Repeatable.waitsFor (h : Repeatable sha256 requests s)
    (waiting : List (ClientRequest × Bool)) (hwaiting : ∀ e ∈ waiting, e ∈ s.waiting) :
    Repeatable sha256 requests { s with waiting } where
  sound := h.sound
  made := h.made
  once := h.once
  executes := fun x hx => (h.executes x hx).of_eq rfl rfl
  alone := h.alone
  owned := h.owned
  keyed := h.keyed
  receipts := h.receipts
  waits := fun e he => h.waits e (hwaiting e he)
  log := h.log

/-- The end of a command. -/
theorem Repeatable.completes (hsame : Consistent sha256 requests) {request : ClientRequest}
    (h : Repeatable sha256 requests
      { s with waiting := s.waiting.filter fun e => !sameCommand request e.1 })
    {wasApplied : Bool} {result : CommandResult} (hrequest : request ∈ requests)
    (hoperation : request.operation = "run.changeSettings") (hrevision : result.revision = none)
    (hfree : commandForKey s.state.commands request.clientId request.idempotencyKey = none)
    (halone : ∀ x ∈ s.inFlight, sameCommand request x.request = false)
    (hwaiting : MayAdopt sha256 requests s request)
    (hresult : ResultOf sha256 s request wasApplied result)
    (happlied : wasApplied = true → ∃ change, IsChangeOf sha256 s.system.store request change) :
    Repeatable sha256 requests (s.complete sha256 request wasApplied result) := by
  have hnone := h.adopts_none hrequest hfree
  unfold SettingsServer.complete storeResult
  rw [show adoptCommand sha256 s.state request = none from hnone]
  cases hinsert : insertCommand sha256 s.state request (s.epoch + 1) result with
  | error message =>
      -- A receipt that cannot be stored is not that of a change.
      have hunapplied : ∀ change, ¬ IsChangeOf sha256 s.system.store request change := by
        intro change hchange
        obtain ⟨_, runId, _, hrun, hthere, _⟩ := hresult change hchange
        have hid : s.state.commands.get? request.requestId = none := by
          cases hrow : s.state.commands.get? request.requestId with
          | none => rfl
          | some row =>
              have hkeys := h.keyed request hrequest row hrow
              exact absurd hkeys
                (of_decide_eq_false (Table.find?_none.1 hfree request.requestId row hrow))
        obtain ⟨state', hok⟩ : ∃ state',
            insertCommand sha256 s.state request (s.epoch + 1) result = .ok state' :=
          insertCommand_some hoperation hrevision hrun hthere hfree hid
        rw [hok] at hinsert
        cases hinsert
      have hfirst := h.answers [⟨request, rejectedResponse request message, wasApplied⟩] ?_
      · refine hfirst.answers ((s.waiting.filter fun e => sameCommand request e.1).map fun e =>
          ⟨e.1, rejectedResponse e.1 message, e.2⟩) ?_
        intro answer hanswer hwas _
        obtain ⟨e, he, rfl⟩ := List.mem_map.1 hanswer
        obtain ⟨hmem, hcommand⟩ := List.mem_filter.1 he
        obtain ⟨⟨change, hchange⟩, _⟩ := (hwaiting e hmem hcommand).2 hwas
        exact absurd ⟨hchange.1, hchange.2.trans (sessionRequestId_of_sameCommand hcommand).symm⟩
          (hunapplied change)
      · intro answer hanswer hwas _
        rw [List.mem_singleton.1 hanswer] at hwas
        obtain ⟨change, hchange⟩ := happlied hwas
        exact absurd hchange (hunapplied change)
  | ok state' =>
      obtain ⟨hdb, hcommands⟩ := insertCommand_ok hinsert
      have hstored := h.stores hsame hrequest halone hresult hdb hcommands
      have hfirst := hstored.answers
        [⟨request, { result with requestId := request.requestId }, wasApplied⟩] ?_
      · refine hfirst.answers ((s.waiting.filter fun e => sameCommand request e.1).map fun e =>
          ⟨e.1, (adoptCommand sha256 state' e.1).getD (unavailableResponse e.1
            "Workflow maintenance command did not complete durably"), e.2⟩) ?_
        intro answer hanswer hwas hthere
        obtain ⟨e, he, rfl⟩ := List.mem_map.1 hanswer
        obtain ⟨hmem, hcommand⟩ := List.mem_filter.1 he
        obtain ⟨he, hwait⟩ := hwaiting e hmem hcommand
        obtain ⟨⟨change, hchange⟩, hfingerprint⟩ := hwait hwas
        cases hadopt : adoptCommand sha256 state' e.1 with
        | none =>
            rw [hadopt] at hthere
            exact absurd rfl hthere
        | some reply =>
            refine hstored.adopts he hadopt ?_ hchange
            intro id row hrow hclient hkey
            rw [(Table.get?_of_insert? hcommands).2 id] at hrow
            split at hrow
            · cases hrow
              exact hfingerprint
            · obtain ⟨hclient', hkey'⟩ := sameCommand_iff.1 hcommand
              exact absurd ⟨hclient.trans hclient'.symm, hkey.trans hkey'.symm⟩
                (of_decide_eq_false (Table.find?_none.1 hfree id row hrow))
      · intro answer hanswer hwas _
        rw [List.mem_singleton.1 hanswer] at hwas ⊢
        obtain ⟨change, hchange⟩ := happlied hwas
        obtain ⟨houtcome, runId, adopted, hrun, _, hreceipt, hadopted⟩ := hresult change hchange
        refine ⟨change, runId, adopted, hchange, hrun, ?_, .inr ⟨houtcome, hadopted hwas⟩⟩
        show result.receipt.map storedJson = _
        rw [hreceipt]
        rfl

/-! ## The steps of a command -/

theorem pairwise_getElem? {α : Type} {R : α → α → Prop} {l : List α} (h : l.Pairwise R) {i j : Nat}
    (hlt : i < j) {a b : α} (ha : l[i]? = some a) (hb : l[j]? = some b) : R a b := by
  obtain ⟨hi, rfl⟩ := List.getElem?_eq_some_iff.1 ha
  obtain ⟨hj, rfl⟩ := List.getElem?_eq_some_iff.1 hb
  exact List.pairwise_iff_getElem.1 h i j hi hj hlt

/-- An execution that ends is taken out, with those that wait for it. -/
theorem Repeatable.removes (hsame : Consistent sha256 requests) (h : Repeatable sha256 requests s)
    {index : Nat} {execution : SettingsExecution} (hindex : s.inFlight[index]? = some execution)
    (hdone : ∀ call definition request attempt patch read, execution.phase = .changing call →
      s.system.calls[call]? ≠ some ⟨definition, request, .awaiting attempt patch read⟩) :
    Repeatable sha256 requests
      { s with
        inFlight := s.inFlight.eraseIdx index
        waiting := s.waiting.filter fun e => !sameCommand execution.request e.1 } ∧
    (∀ x ∈ s.inFlight.eraseIdx index, sameCommand execution.request x.request = false) ∧
    MayAdopt sha256 requests s execution.request := by
  have hmem := List.mem_of_getElem? hindex
  have hleft : ∀ x ∈ s.inFlight, x ≠ execution → x ∈ s.inFlight.eraseIdx index := by
    intro x hx hne
    obtain ⟨j, hj⟩ := List.mem_iff_getElem?.1 hx
    refine List.mem_eraseIdx_iff_getElem?.2 ⟨j, ?_, hj⟩
    rintro rfl
    rw [hindex] at hj
    exact hne (Option.some.inj hj).symm
  have hothers : ∀ x ∈ s.inFlight.eraseIdx index,
      sameCommand execution.request x.request = false := by
    intro x hx
    obtain ⟨j, hne, hj⟩ := List.mem_eraseIdx_iff_getElem?.1 hx
    have hpairs := List.pairwise_map.1 h.alone
    rcases Nat.lt_or_gt_of_ne hne with hlt | hgt
    · rw [sameCommand_comm]
      exact pairwise_getElem? hpairs hlt hj hindex
    · exact pairwise_getElem? hpairs hgt hindex hj
  refine ⟨⟨h.sound, h.made, h.once, ?_, ?_, ?_, h.keyed, h.receipts, ?_, h.log⟩, hothers, ?_⟩
  · exact fun x hx => (h.executes x (List.mem_of_mem_eraseIdx hx)).of_eq rfl rfl
  · exact h.alone.sublist ((List.eraseIdx_sublist _ _).map _)
  · intro other definition request attempt patch read hcall r hr hid
    obtain ⟨x, hx, hphase⟩ := h.owned other definition request attempt patch read hcall r hr hid
    refine ⟨x, hleft x hx ?_, hphase⟩
    rintro rfl
    exact hdone other definition request attempt patch read hphase hcall
  · intro e he
    obtain ⟨he, hother⟩ := List.mem_filter.1 he
    obtain ⟨hrequest, x, hx, hcommand, hwait⟩ := h.waits e he
    refine ⟨hrequest, x, hleft x hx ?_, hcommand, hwait⟩
    rintro rfl
    rw [hcommand] at hother
    cases hother
  · intro e he hcommand
    obtain ⟨hrequest, x, hx, hcommand', hwait⟩ := h.waits e he
    have hid : sessionRequestId sha256 x.request = sessionRequestId sha256 execution.request :=
      (sessionRequestId_of_sameCommand hcommand').trans
        (sessionRequestId_of_sameCommand hcommand).symm
    obtain rfl := h.unique hsame hx hmem hid
    exact ⟨hrequest, hwait⟩

/-- What is asked of the store. -/
theorem proposeSettingsChange_ok {definition definition' : SettingsDefinition}
    {execution : SettingsExecution} {request : SettingsChangeRequest}
    (h : proposeSettingsChange sha256 definition execution.request execution.opened =
      .ok (definition', request)) : CalledFor sha256 execution request := by
  simp only [proposeSettingsChange, resolveSettingsChange, bind_ok, pure_ok, Prod.mk.injEq] at h
  obtain ⟨proposal, ⟨applied, happlied, rfl⟩, expected, hexpected, _, rfl⟩ := h
  refine ⟨rfl, rfl, by rintro ⟨⟩, rfl, rfl, ⟨applied.patch, ?_, rfl⟩, ?_⟩
  · simp only [applyWorkflowSettingsPatch, bind_ok, pure_ok] at happlied
    obtain ⟨patch, hpatch, _, _, _, _, _, _, _, _, _, _, _, _, rfl⟩ := happlied
    exact hpatch
  · intro value hvalue
    rw [expectedChangeNumber, hvalue] at hexpected
    exact ⟨expected, hexpected⟩

/-- The call of the store for an execution, right after it has begun. -/
theorem startCall_returns (h : Repeatable sha256 requests s) {execution : SettingsExecution}
    (hexecution : execution ∈ s.inFlight) {request : SettingsChangeRequest}
    (hfor : CalledFor sha256 execution request)
    (hnumber : ∀ change, IsChangeOf sha256 s.system.store execution.request change →
      ∃ row, s.system.store.scopes.get? change.scopeId = some row ∧
        row.revision = change.changeNumber) :
    Returns sha256 s.system.store execution (startCall sha256 s.system.store request) := by
  have hold := h.executes execution hexecution
  by_cases hthere : ∃ change, IsChangeOf sha256 s.system.store execution.request change
  · obtain ⟨change, hchange⟩ := hthere
    have hscope : request.scopeId = change.scopeId :=
      hfor.scopeId.trans (hold.placed change hchange).symm
    have hid : request.requestId = change.requestId := hfor.requestId.trans hchange.2.symm
    obtain ⟨⟨_, _, patch, hsession, hpatch, hhash, hactor, hsource, _⟩, _, _⟩ :=
      h.made _ hold.request change hchange
    obtain ⟨patch', hpatch', hrequest⟩ := hfor.patch
    obtain rfl : patch = patch' := Except.ok.inj (hpatch.symm.trans hpatch')
    have hstored := h.sound.1.stored change hchange.1
    have hcheck : checkSettingsRequest request = .ok patch := by
      refine checkSettingsRequest_ok.2 ⟨hid ▸ hstored.requestId, ?_, ?_⟩
      · rw [hfor.source, ← hsource]
        exact hstored.source
      · rw [hrequest]
        exact validateJsonPatch_patchJson hpatch
    have htarget := Except.ok.inj (hsession.target.symm.trans hold.opens.session.target)
    have hmatches : IsSameSettingsChange sha256 change request
        (jsonHash sha256 (patchJson patch)) :=
      ⟨hhash, by rw [hactor, hfor.actor, htarget], hsource.trans hfor.source.symm⟩
    obtain ⟨result, hopen, _, hadopted⟩ :=
      (openAttempt_repeat sha256 h.sound.1 hchange.1 hscope hid patch
        (show 0 < maxSettingsAttempts by decide)).1 hmatches
    rw [startCall, hcheck]
    show Returns _ _ _ (openAttempt sha256 s.system.store request patch 0)
    rw [hopen]
    refine ⟨change, hchange, ?_, fun _ => hadopted⟩
    rw [openAttempt, if_pos (show 0 < maxSettingsAttempts by decide), hscope, hid,
      settingsChangeRow_of_mem h.sound.1 hchange.1] at hopen
    obtain ⟨_, _, hresult⟩ := bind_ok.1 (CallPhase.returned.inj hopen)
    obtain ⟨row, hrow, hrevision⟩ := settingsChangeResult_scope hresult
    obtain ⟨row', hrow', hcurrent⟩ := hnumber change hchange
    cases hrow.symm.trans hrow'
    exact hrevision.trans hcurrent
  · have hnone : ∀ change, ¬ IsChangeOf sha256 s.system.store execution.request change :=
      fun change hchange => hthere ⟨change, hchange⟩
    cases hcheck : checkSettingsRequest request with
    | error e =>
        rw [startCall, hcheck]
        exact hnone
    | ok patch =>
        rw [startCall, hcheck]
        show Returns _ _ _ (openAttempt sha256 s.system.store request patch 0)
        rw [openAttempt, if_pos (show 0 < maxSettingsAttempts by decide)]
        cases hprior : settingsChangeRow s.system.store request.scopeId request.requestId with
        | some change =>
            obtain ⟨hmem, _, hid⟩ := settingsChangeRow_some hprior
            exact absurd ⟨hmem, hid.trans hfor.requestId⟩ (hnone change)
        | none =>
            cases hread : readSettingsScope s.system.store request with
            | ok scope =>
                exact hnone
            | error e =>
                exact hnone

/-- An execution of which nothing is there yet ends without a change. -/
theorem Repeatable.rejects (hsame : Consistent sha256 requests) (h : Repeatable sha256 requests s)
    {index : Nat} {execution : SettingsExecution} (hindex : s.inFlight[index]? = some execution)
    (hphase : execution.phase = .resolving)
    (hnone : ∀ change, ¬ IsChangeOf sha256 s.system.store execution.request change)
    (message : String) :
    Repeatable sha256 requests
      (SettingsServer.complete sha256 { s with inFlight := s.inFlight.eraseIdx index }
        execution.request execution.wasApplied
        { outcome := .rejected, error := some message }) := by
  have hold := h.executes execution (List.mem_of_getElem? hindex)
  obtain ⟨hremoved, halone, hwaiting⟩ := h.removes hsame hindex
    (fun call _ _ _ _ _ hcall => by rw [hphase] at hcall; cases hcall)
  exact Repeatable.completes hsame hremoved hold.request hold.operation rfl hold.free halone
    hwaiting (fun change hchange => absurd hchange (hnone change)) hold.applied

/-- A change that is there can be proposed again, if its patch still applies. -/
theorem proposeSettingsChange_some (sha256 : String → String) {definition : SettingsDefinition}
    {request : ClientRequest} {opened : OpenedChange} {applied : AppliedSettings}
    (happlied : applyWorkflowSettingsPatch definition opened.scope.current (requestedPatch request)
      ⟨.resource_manager, some opened.targetSessionId⟩ "resource-manager-request" = .ok applied)
    (hexpected : HasExpected request) :
    ∃ r, proposeSettingsChange sha256 definition request opened = .ok r := by
  have hnumber : ∃ n, expectedChangeNumber request opened.scope = .ok n := by
    rw [expectedChangeNumber]
    cases hvalue : payloadMember request "expectedChangeNumber" with
    | none => exact ⟨_, rfl⟩
    | some value => exact hexpected value hvalue
  obtain ⟨n, hnumber⟩ := hnumber
  simp only [proposeSettingsChange, resolveSettingsChange, happlied, hnumber, bind_ok, pure_ok]
  exact ⟨_, _, ⟨applied, rfl, rfl⟩, n, rfl, rfl⟩

theorem set_getElem? {α : Type} {l : List α} {i : Nat} {a : α} (h : l[i]? = some a) :
    l.set i a = l := by
  obtain ⟨hlt, rfl⟩ := List.getElem?_eq_some_iff.1 h
  exact List.set_getElem_self hlt

/-- The resolver has answered, and the store is called. -/
theorem Repeatable.calls (h : Repeatable sha256 requests s) {index : Nat}
    {execution : SettingsExecution} (hindex : s.inFlight[index]? = some execution)
    (hphase : execution.phase = .resolving) {definition : SettingsDefinition}
    {request : SettingsChangeRequest} (hfor : CalledFor sha256 execution request)
    (hreturns : Returns sha256 s.system.store execution
      (startCall sha256 s.system.store request)) :
    Repeatable sha256 requests
      { s with
        system := settingsStep sha256 s.system (.change definition request)
        inFlight := s.inFlight.set index
          { execution with phase := .changing s.system.calls.length } } := by
  have hmem := List.mem_of_getElem? hindex
  have hold := h.executes execution hmem
  have hsound := settingsStep_sound h.sound (.change definition request)
  obtain ⟨hlt, hget⟩ := List.getElem?_eq_some_iff.1 hindex
  have hkept : ∀ x ∈ s.inFlight, x ≠ execution → x ∈ s.inFlight.set index
      { execution with phase := .changing s.system.calls.length } := by
    intro x hx hne
    obtain ⟨j, hj⟩ := List.mem_iff_getElem?.1 hx
    have hindices : index ≠ j := by
      rintro rfl
      exact hne (Option.some.inj (hj.symm.trans hindex))
    exact List.mem_iff_getElem?.2 ⟨j, by rw [List.getElem?_set_ne hindices, hj]⟩
  have hnew : { execution with phase := .changing s.system.calls.length } ∈
      s.inFlight.set index { execution with phase := .changing s.system.calls.length } :=
    List.mem_iff_getElem?.2 ⟨index, List.getElem?_set_self hlt⟩
  refine ⟨hsound, h.made, h.once, ?_, ?_, ?_, h.keyed, h.receipts, ?_, h.log⟩
  · intro x hx
    rcases List.mem_or_eq_of_mem_set hx with hx | rfl
    · have hxold := h.executes x hx
      refine ⟨hxold.request, hxold.operation, hxold.opens, hxold.free, hxold.placed,
        hxold.applied, ?_⟩
      intro other hother
      obtain ⟨call, hcall, hrest⟩ := hxold.called other hother
      obtain ⟨hbound, -⟩ := List.getElem?_eq_some_iff.1 hcall
      exact ⟨call, (List.getElem?_append_left hbound).trans hcall, hrest⟩
    · refine ⟨hold.request, hold.operation, hold.opens, hold.free, hold.placed, hold.applied, ?_⟩
      intro other hother
      obtain rfl := SettingsPhase.changing.inj hother
      exact ⟨⟨definition, request, startCall sha256 s.system.store request⟩,
        List.getElem?_concat_length, ⟨hfor.requestId, hfor.scopeId, hfor.expected, hfor.actor,
          hfor.source, hfor.patch, hfor.hasExpected⟩, hreturns⟩
  · have hrequests : (s.inFlight.set index
        { execution with phase := .changing s.system.calls.length }).map
          SettingsExecution.request = s.inFlight.map SettingsExecution.request := by
      rw [List.map_set]
      show (s.inFlight.map SettingsExecution.request).set index execution.request = _
      have hrequest : (s.inFlight.map SettingsExecution.request)[index]? =
          some execution.request := by
        rw [List.getElem?_map, hindex]
        rfl
      exact set_getElem? hrequest
    show List.Pairwise _ (List.map _ (s.inFlight.set index _))
    rw [hrequests]
    exact h.alone
  · intro other definition' request' attempt patch read hcall r hr hid
    by_cases hbound : other < s.system.calls.length
    · obtain ⟨x, hx, hxphase⟩ := h.owned other definition' request' attempt patch read
        ((List.getElem?_append_left hbound).symm.trans hcall) r hr hid
      refine ⟨x, hkept x hx ?_, hxphase⟩
      rintro rfl
      rw [hphase] at hxphase
      cases hxphase
    · obtain ⟨hlength, -⟩ := List.getElem?_eq_some_iff.1 hcall
      have hlast : other = s.system.calls.length := by
        have hle : other < (s.system.calls ++ [_]).length := hlength
        rw [List.length_append, List.length_singleton] at hle
        omega
      exact ⟨_, hnew, by rw [hlast]⟩
  · intro e he
    obtain ⟨hrequest, x, hx, hcommand, hwait⟩ := h.waits e he
    by_cases hxe : x = execution
    · subst hxe
      exact ⟨hrequest, _, hnew, hcommand, hwait⟩
    · exact ⟨hrequest, x, hkept x hx hxe, hcommand, hwait⟩

/-- The resolver answers. -/
theorem Repeatable.resolves (hsame : Consistent sha256 requests) (h : Repeatable sha256 requests s)
    {settingsOf : String → String → SettingsDefinition} {index : Nat}
    {execution : SettingsExecution} (hindex : s.inFlight[index]? = some execution)
    (hphase : execution.phase = .resolving)
    (hfits : ∀ change, IsChangeOf sha256 s.system.store execution.request change →
      (∃ applied, applyWorkflowSettingsPatch
        (settingsOf execution.opened.runId execution.opened.scope.mountPath)
        execution.opened.scope.current (requestedPatch execution.request)
        ⟨.resource_manager, some execution.opened.targetSessionId⟩ "resource-manager-request" =
          .ok applied) ∧
      ∃ row, s.system.store.scopes.get? change.scopeId = some row ∧
        row.revision = change.changeNumber) :
    Repeatable sha256 requests (s.resolve sha256 settingsOf index execution) := by
  have hmem := List.mem_of_getElem? hindex
  unfold SettingsServer.resolve
  dsimp only
  split
  · next definition request hpropose =>
      have hfor := proposeSettingsChange_ok hpropose
      exact h.calls hindex hphase hfor
        (startCall_returns h hmem hfor fun change hchange => (hfits change hchange).2)
  · next message hpropose =>
      refine h.rejects hsame hindex hphase ?_ message
      intro change hchange
      obtain ⟨applied, happlied⟩ := (hfits change hchange).1
      obtain ⟨r, hok⟩ := proposeSettingsChange_some sha256 happlied
        (h.made _ (h.executes execution hmem).request change hchange).expected
      rw [hpropose] at hok
      cases hok

/-- An operation has ended. -/
theorem Repeatable.finishes (hsame : Consistent sha256 requests) (h : Repeatable sha256 requests s)
    {index call : Nat} {execution : SettingsExecution}
    (hindex : s.inFlight[index]? = some execution) (hphase : execution.phase = .changing call)
    {definition : SettingsDefinition} {request : SettingsChangeRequest}
    {result : Except StoreError SettingsChangeResult}
    (hcall : s.system.calls[call]? = some ⟨definition, request, .returned result⟩) :
    Repeatable sha256 requests
      (SettingsServer.complete sha256 { s with inFlight := s.inFlight.eraseIdx index }
        execution.request execution.wasApplied
        (settingsCommandResult execution.opened result)) := by
  have hold := h.executes execution (List.mem_of_getElem? hindex)
  have hrevision : (settingsCommandResult execution.opened result).revision = none := by
    cases result <;> rfl
  obtain ⟨hremoved, halone, hwaiting⟩ := h.removes hsame hindex (by
    intro other _ _ _ _ _ hother
    obtain rfl := SettingsPhase.changing.inj (hphase.symm.trans hother)
    rw [hcall]
    simp)
  refine Repeatable.completes hsame hremoved hold.request hold.operation hrevision hold.free halone
    hwaiting ?_ hold.applied
  intro change hchange
  obtain ⟨found, hfound, -, hreturns⟩ := hold.called call hphase
  cases hcall.symm.trans hfound
  cases result with
  | error e => exact absurd hchange (hreturns change)
  | ok result =>
      obtain ⟨change', hchange', hnumber, hadopted⟩ := hreturns
      obtain rfl := h.once _ hold.request change' change hchange' hchange
      obtain ⟨run, hrun, -⟩ := hold.opens.session.run
      refine ⟨rfl, execution.opened.runId, result.adopted, hold.opens.session.names, ?_, ?_,
        hadopted⟩
      · obtain ⟨row, hrow, -⟩ := Option.bind_eq_some_iff.1 hrun
        exact Option.isSome_of_eq_some hrow
      · show some (settingsReceipt _ _ _ _) = _
        rw [hnumber, hold.placed _ hchange']

/-- What an operation reads. -/
theorem openSettingsChange_ok {db : Db} {store : SettingsStore} {request : ClientRequest}
    {opened : OpenedChange} (h : openSettingsChange db store request = .ok opened) :
    Opens db store request opened ∧
      (requestedScopeId request = .ok none →
        onlySettingsScope store opened.runId = some opened.scopeId) := by
  simp only [openSettingsChange, requireRunId, requireWorkflowRunRow, bind_ok, orThrow_ok,
    require_ok, pure_ok] at h
  obtain ⟨runId, hrunId, _, _, target, htarget, run, hrun, _, hbinding, requested, hrequested,
    scopeId, hscopeId, scope, hscope, rfl⟩ := h
  obtain ⟨hrow, hactive⟩ := Option.filter_eq_some_iff.1 hscope
  refine ⟨⟨⟨hrunId, htarget, run, hrun, hbinding⟩, ⟨scope, hrow, of_decide_eq_true hactive⟩,
    requested, hrequested, ?_⟩, ?_⟩
  · rintro named rfl
    exact (Option.some.inj hscopeId).symm
  · intro hnone
    obtain rfl := Except.ok.inj (hrequested.symm.trans hnone)
    exact hscopeId

theorem onlySettingsScope_of_active {store : SettingsStore} {runId scopeId only : String}
    {row : SettingsScopeRow} (hrow : store.scopes.get? scopeId = some row)
    (hactive : row.activeRunId = runId) (honly : onlySettingsScope store runId = some only) :
    scopeId = only := by
  have hmem : scopeId ∈ listSettingsScopes store runId :=
    List.mem_map.2 ⟨(scopeId, row),
      List.mem_filter.2 ⟨Table.mem_rows.2 hrow, decide_eq_true hactive⟩, rfl⟩
  unfold onlySettingsScope at honly
  split at honly
  · next found hlist =>
      rw [hlist] at hmem
      exact (List.mem_singleton.1 hmem).trans (Option.some.inj honly)
  · cases honly

/-- A change that is there can be opened again, if its scope is found. -/
theorem openSettingsChange_some {db : Db} {store : SettingsStore} {request : ClientRequest}
    {change : SettingsChangeRow} (hmade : MadeFor sha256 db store request change)
    (hscope : payloadMember request "scopeId" = none → ∀ runId, request.runId = some runId →
      onlySettingsScope store runId ≠ none) :
    ∃ opened, openSettingsChange db store request = .ok opened := by
  obtain ⟨⟨runId, target, _, hsession, _, _, _, _, row, hrow, hactive⟩,
    ⟨requested, hrequested, hnamed⟩, _⟩ := hmade
  obtain ⟨run, hrun, hbinding⟩ := hsession.run
  have hrecord : hasRecordPayload request = true := by
    have htarget := hsession.target
    unfold requirePayloadString payloadMember at htarget
    unfold hasRecordPayload
    cases hpayload : request.payload <;> rw [hpayload] at htarget <;> first | rfl | cases htarget
  have hfound : requested.or (onlySettingsScope store runId) = some change.scopeId := by
    cases hrequest : requested with
    | some named =>
        rw [hnamed named hrequest]
        rfl
    | none =>
        have hnone : payloadMember request "scopeId" = none := by
          cases hmember : payloadMember request "scopeId" with
          | none => rfl
          | some value =>
              rw [requestedScopeId, hmember, hrequest] at hrequested
              obtain ⟨_, _, hsome⟩ := map_ok.1 hrequested
              cases hsome
        obtain ⟨only, honly⟩ := Option.ne_none_iff_exists'.1 (hscope hnone runId hsession.names)
        rw [honly, onlySettingsScope_of_active hrow hactive honly]
        rfl
  have hfilter : (store.scopes.get? change.scopeId).filter
      (fun scope => decide (scope.activeRunId = runId)) = some row :=
    Option.filter_eq_some_iff.2 ⟨hrow, decide_eq_true hactive⟩
  refine ⟨⟨runId, target, change.scopeId, row⟩, ?_⟩
  simp only [openSettingsChange, requireRunId, requireWorkflowRunRow, bind_ok, orThrow_ok,
    require_ok, pure_ok]
  exact ⟨runId, hsession.names, .unit, hrecord, target, hsession.target, run, hrun, .unit, hbinding,
    requested, hrequested, change.scopeId, hfound, row, hfilter, rfl⟩

/-- A command whose execution would be the only one opens. -/
theorem Repeatable.opens (h : Repeatable sha256 requests s) {request : ClientRequest}
    (hrequest : request ∈ requests) (hoperation : request.operation = "run.changeSettings")
    (hadopt : adoptCommand sha256 s.state request = none)
    (halone : ∀ x ∈ s.inFlight, sameCommand x.request request = false) {opened : OpenedChange}
    (hopen : openSettingsChange s.state.db s.system.store request = .ok opened) :
    Repeatable sha256 requests
      { s with
        inFlight := s.inFlight ++
          [⟨request, s.isApplied sha256 request, opened, .resolving⟩] } := by
  obtain ⟨hopens, honly⟩ := openSettingsChange_ok hopen
  refine ⟨h.sound, h.made, h.once, ?_, ?_, ?_, h.keyed, h.receipts, ?_, h.log⟩
  · intro x hx
    rcases List.mem_append.1 hx with hx | hx
    · exact (h.executes x hx).of_eq rfl rfl
    · obtain rfl := List.mem_singleton.1 hx
      refine ⟨hrequest, hoperation, hopens, free_of_adopts_none hadopt, ?_, ?_, nofun⟩
      · intro change hchange
        obtain ⟨⟨runId, _, _, hsession, _, _, _, _, row, hrow, hactive⟩,
          ⟨requested, hrequested, hnamed⟩, _⟩ := h.made request hrequest change hchange
        cases requested with
        | some named =>
            obtain ⟨requested', hrequested', hnamed'⟩ := hopens.requested
            obtain rfl := Except.ok.inj (hrequested.symm.trans hrequested')
            exact (hnamed named rfl).trans (hnamed' named rfl).symm
        | none =>
            obtain rfl := Option.some.inj (hsession.names.symm.trans hopens.session.names)
            exact onlySettingsScope_of_active hrow hactive (honly hrequested)
      · intro happlied
        obtain ⟨change, hmem, hid⟩ := List.any_eq_true.1 happlied
        exact ⟨change, hmem, of_decide_eq_true hid⟩
  · rw [List.map_append, List.pairwise_append]
    refine ⟨h.alone, List.pairwise_singleton _ _, ?_⟩
    intro a ha b hb
    obtain ⟨x, hx, rfl⟩ := List.mem_map.1 ha
    obtain rfl := List.mem_singleton.1 hb
    exact halone x hx
  · intro index definition request' attempt patch read hcall r hr hid
    obtain ⟨x, hx, hphase⟩ := h.owned index definition request' attempt patch read hcall r hr hid
    exact ⟨x, List.mem_append_left _ hx, hphase⟩
  · intro e he
    obtain ⟨hmem, x, hx, hrest⟩ := h.waits e he
    exact ⟨hmem, x, List.mem_append_left _ hx, hrest⟩

theorem isApplied_iff {request : ClientRequest} : s.isApplied sha256 request = true ↔
    ∃ change, IsChangeOf sha256 s.system.store request change := by
  rw [SettingsServer.isApplied, List.any_eq_true]
  exact exists_congr fun change => and_congr_right fun _ => decide_eq_true_iff

end

end PiWorkflows
