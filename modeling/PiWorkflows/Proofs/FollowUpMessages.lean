import PiWorkflows.Proofs.MessageTurns
import PiWorkflows.Workflows.FollowUps

/-!
# Follow-ups and their messages

What removes or cancels a follow-up cancels its message with it, and nothing that happens to
messages makes one of a follow-up wait again. So a follow-up that is over stays over.
-/

namespace PiWorkflows

open Fallible

namespace WorkflowMessageStore

variable {sha256 : String → String} {s t : WorkflowMessageStore} {followUpId : String}

/-- A message waits for the session to take the follow-up. -/
def Awaits (s : WorkflowMessageStore) (followUpId : String) : Prop :=
  ∃ id row, s.messages.get? id = some row ∧ row.kind = .followUp ∧ row.sourceId = followUpId ∧
    row.status = .pending

end WorkflowMessageStore

/-- The columns of a follow-up that nothing changes. -/
def FollowUp.identity (row : FollowUp) : FollowUp :=
  { row with status := .queued, updatedAt := 0 }

namespace FollowUpStore

open WorkflowMessageStore

variable {sha256 : String → String} {s t u : FollowUpStore}

/-- What every state of a run has. -/
structure Sound (s : FollowUpStore) : Prop where
  queued : ∀ id, s.messages.Awaits id → ∃ row, s.followUps.get? id = some row ∧ row.status = .queued
  orders : s.followUps.Distinct fun row => (row.runId, row.orderNumber)
  requests : s.followUps.Distinct fun row => (row.runId, row.requestId)

/-- What a later state keeps of a follow-up: its identity, and everything once it is over. -/
def Keeps (s t : FollowUpStore) : Prop :=
  ∀ id row, s.followUps.get? id = some row → ∃ row', t.followUps.get? id = some row' ∧
    row'.identity = row.identity ∧ (row.status ≠ .queued → row' = row)

theorem Keeps.refl (s : FollowUpStore) : s.Keeps s :=
  fun _ row h => ⟨row, h, rfl, fun _ => rfl⟩

theorem Keeps.trans (h : s.Keeps t) (h' : t.Keeps u) : s.Keeps u := by
  intro id row hrow
  obtain ⟨row', hrow', hsame, hover⟩ := h id row hrow
  obtain ⟨row'', hrow'', hsame', hover'⟩ := h' id row' hrow'
  refine ⟨row'', hrow'', hsame'.trans hsame, fun hstatus => ?_⟩
  obtain rfl := hover hstatus
  exact hover' hstatus

theorem fresh_sound (runs : Table String FollowUpRun) (state : StateDatabase String)
    (runIds : List String) : Sound ⟨runs, .empty, .fresh state runIds⟩ where
  queued _ h := by
    obtain ⟨_, _, hrow, -⟩ := h
    cases hrow
  orders _ _ _ _ hrow := by cases hrow
  requests _ _ _ _ hrow := by cases hrow

end FollowUpStore

end PiWorkflows
