import PiWorkflows.Proofs.SettingsReceipts

/-!
# Repeats of a settings change

What a repeat is told depends on where the attempts before it ended. With a receipt it
is told what the receipt says, if its fingerprint is that of the receipt. Without one
the operation runs again, and the store would give back the change it has, but the
operation first looks for the scope and has the resolver try the patch on the settings
as they are now, and it answers with the number the scope has reached. So a repeat is
answered right under a condition on the steps that come with the change in the
history (`StepFits`), and a crash between the change and its receipt is enough to
leave it.
-/

namespace PiWorkflows

open Fallible

/-! ## When repeats are answered right -/

section

variable (sha256 : String → String)

/-- A repeat that comes with its change in the history has the fingerprint of the
receipt, or of the execution it waits for; and where it runs again it names its scope,
or its run has no other one. -/
def ReceiveFits (s : SettingsServer) (request : ClientRequest) : Prop :=
  s.isApplied sha256 request = true →
    (∀ id row, s.state.commands.get? id = some row → row.clientId = request.clientId →
      row.idempotencyKey = request.idempotencyKey →
      row.requestFingerprint = clientRequestFingerprint sha256 request) ∧
    (∀ x ∈ s.inFlight, sameCommand x.request request = true →
      clientRequestFingerprint sha256 x.request = clientRequestFingerprint sha256 request) ∧
    (adoptCommand sha256 s.state request = none →
      (∀ x ∈ s.inFlight, sameCommand x.request request = false) →
      payloadMember request "scopeId" = none → ∀ runId, request.runId = some runId →
      onlySettingsScope s.system.store runId ≠ none)

/-- Where an operation runs again with its change in the history, its patch applies to
the settings it has read, and no other change has come since. -/
def ResolveFits (settingsOf : String → String → SettingsDefinition) (s : SettingsServer)
    (execution : SettingsExecution) : Prop :=
  ∀ change, IsChangeOf sha256 s.system.store execution.request change →
    (∃ applied, applyWorkflowSettingsPatch
      (settingsOf execution.opened.runId execution.opened.scope.mountPath)
      execution.opened.scope.current (requestedPatch execution.request)
      ⟨.resource_manager, some execution.opened.targetSessionId⟩ "resource-manager-request" =
        .ok applied) ∧
    ∃ row, s.system.store.scopes.get? change.scopeId = some row ∧
      row.revision = change.changeNumber

def StepFits (settingsOf : String → String → SettingsDefinition) (s : SettingsServer) :
    SettingsServerAction → Prop
  | .receive request => ReceiveFits sha256 s request
  | .resolve index => ∀ execution, s.inFlight[index]? = some execution →
      execution.phase = .resolving → ResolveFits sha256 settingsOf s execution
  | .finish _ | .write _ | .stop | .crash => True

/-- Every step of a run meets the condition. -/
def RunFits (settingsOf : String → String → SettingsDefinition) :
    SettingsServer → List SettingsServerAction → Prop
  | _, [] => True
  | s, action :: actions => StepFits sha256 settingsOf s action ∧
      RunFits settingsOf (s.act sha256 settingsOf action) actions

end

section

variable {sha256 : String → String} {requests : List ClientRequest} {s : SettingsServer}
  {settingsOf : String → String → SettingsDefinition}

theorem Repeatable.receives (hsame : Consistent sha256 requests) (h : Repeatable sha256 requests s)
    {request : ClientRequest} (hrequest : request ∈ requests)
    (hoperation : request.operation = "run.changeSettings")
    (hfits : ReceiveFits sha256 s request) :
    Repeatable sha256 requests (s.receive sha256 request) := by
  unfold SettingsServer.receive
  dsimp only
  split
  · next adopted hadopt =>
      refine h.answers [⟨request, adopted, s.isApplied sha256 request⟩] ?_
      intro answer hanswer hwas _
      rw [List.mem_singleton.1 hanswer] at hwas ⊢
      obtain ⟨change, hchange⟩ := isApplied_iff.1 hwas
      exact h.adopts hrequest hadopt (hfits hwas).1 hchange
  · next hadopt =>
      split
      · refine h.answers [⟨request, unavailableResponse request "Workflow server is stopping",
          s.isApplied sha256 request⟩] ?_
        intro answer hanswer _ hthere
        rw [List.mem_singleton.1 hanswer] at hthere
        exact absurd rfl hthere
      · split
        · next hactive =>
            obtain ⟨x, hx, hcommand⟩ := List.any_eq_true.1 hactive
            refine ⟨h.sound, h.made, h.once, ?_, h.alone, h.owned, h.keyed, h.receipts, ?_, h.log⟩
            · exact fun x hx => (h.executes x hx).of_eq rfl rfl
            · intro e he
              rcases List.mem_append.1 he with he | he
              · exact h.waits e he
              · obtain rfl := List.mem_singleton.1 he
                exact ⟨hrequest, x, hx, hcommand, fun hwas =>
                  ⟨isApplied_iff.1 hwas, (hfits hwas).2.1 x hx hcommand⟩⟩
        · next hactive =>
            have halone : ∀ x ∈ s.inFlight, sameCommand x.request request = false := by
              intro x hx
              by_contra hcommand
              exact hactive (List.any_eq_true.2 ⟨x, hx, by simpa using hcommand⟩)
            split
            · next opened hopen => exact h.opens hrequest hoperation hadopt halone hopen
            · next message hopen =>
                have hnone : ∀ change, ¬ IsChangeOf sha256 s.system.store request change := by
                  intro change hchange
                  obtain ⟨opened, hok⟩ := openSettingsChange_some
                    (h.made request hrequest change hchange)
                    ((hfits (isApplied_iff.2 ⟨change, hchange⟩)).2.2 hadopt halone)
                  rw [hok] at hopen
                  cases hopen
                refine Repeatable.completes hsame
                  (h.waitsFor (s.waiting.filter fun e => !sameCommand request e.1)
                    fun e he => (List.mem_filter.1 he).1)
                  hrequest hoperation rfl (free_of_adopts_none hadopt) ?_ ?_
                  (fun change hchange => absurd hchange (hnone change))
                  (fun hwas => isApplied_iff.1 hwas)
                · intro x hx
                  rw [sameCommand_comm]
                  exact halone x hx
                · -- Nobody waits for a command that has no execution.
                  intro e he hcommand
                  obtain ⟨_, x, hx, hcommand', _⟩ := h.waits e he
                  have htrans : sameCommand x.request request = true := by
                    obtain ⟨hclient, hkey⟩ := sameCommand_iff.1 hcommand
                    obtain ⟨hclient', hkey'⟩ := sameCommand_iff.1 hcommand'
                    exact sameCommand_iff.2 ⟨hclient'.trans hclient.symm, hkey'.trans hkey.symm⟩
                  exact absurd ((halone x hx).symm.trans htrans) (by decide)

/-- One step of the server. -/
theorem Repeatable.act (hsame : Consistent sha256 requests) (h : Repeatable sha256 requests s)
    {action : SettingsServerAction} (hrequest : ∀ request, action = .receive request →
      request ∈ requests) (hfits : StepFits sha256 settingsOf s action) :
    Repeatable sha256 requests (s.act sha256 settingsOf action) := by
  cases action with
  | receive request =>
      show Repeatable sha256 requests
        (if request.operation = "run.changeSettings" then s.receive sha256 request else s)
      split
      · next hoperation => exact h.receives hsame (hrequest request rfl) hoperation hfits
      · exact h
  | resolve index =>
      simp only [SettingsServer.act]
      cases hindex : s.inFlight[index]? with
      | none => exact h
      | some execution =>
          cases hphase : execution.phase with
          | resolving =>
              simp only [hphase]
              exact h.resolves hsame hindex hphase (hfits execution hindex hphase)
          | changing call =>
              simp only [hphase]
              exact h
  | finish index =>
      simp only [SettingsServer.act]
      split
      · next request wasApplied opened call hindex =>
          split
          · next definition storeRequest result hcall => exact h.finishes hsame hindex rfl hcall
          · exact h
      · exact h
  | write write => exact h.write hsame write
  | stop =>
      exact ⟨h.sound, h.made, h.once, fun x hx => (h.executes x hx).of_eq rfl rfl, h.alone,
        h.owned, h.keyed, h.receipts, h.waits, h.log⟩
  | crash =>
      exact ⟨⟨h.sound.1, fun _ hcall => absurd hcall List.not_mem_nil⟩, h.made, h.once,
        fun _ hx => absurd hx List.not_mem_nil, List.Pairwise.nil,
        fun _ _ _ _ _ _ hcall => (by cases hcall), h.keyed, h.receipts,
        fun _ he => absurd he List.not_mem_nil, h.log⟩

/-- A server that has seen none of its requests yet. -/
def SettingsServer.fresh (state : ServerState) (store : SettingsStore) : SettingsServer where
  state := state
  system := ⟨store, []⟩

/-- The answer of a repeat: it is adopted, with the number that the lookup of
`changeResourceManagerWorkflowSettings` finds for the same id. -/
def AdoptedAnswer (sha256 : String → String) (store : SettingsStore) (answer : SettingsAnswer) :
    Prop :=
  ∃ runId scopeId number adopted, answer.request.runId = some runId ∧
    priorChangeNumber store scopeId (sessionRequestId sha256 answer.request) = some number ∧
    answer.response.receipt.map storedJson =
      some (storedJson (settingsReceipt runId scopeId number adopted)) ∧
    (answer.response.outcome = .adopted ∨ answer.response.outcome = .accepted ∧ adopted = true)

theorem AnswersWith.adopted {store : SettingsStore} (hstore : store.Chained)
    {answer : SettingsAnswer} (h : AnswersWith sha256 store answer) :
    AdoptedAnswer sha256 store answer := by
  obtain ⟨change, runId, adopted, ⟨hmem, hid⟩, hrun, hreceipt, houtcome⟩ := h
  refine ⟨runId, change.scopeId, change.changeNumber, adopted, hrun, ?_, hreceipt, houtcome⟩
  rw [priorChangeNumber, ← hid, settingsChangeRow_of_mem hstore hmem]
  rfl

end

/-! ## A crash between the change and its receipt -/

end PiWorkflows
