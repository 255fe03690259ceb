import Mathlib.Data.List.Induction
import PiWorkflows.Proofs.QueueLease

/-!
# Durable outcomes under queue operations

A run is over when its row of `runs` is terminal, which the engine decides; its
queue entry follows in a later transaction. In between the entry is open under a
live claim. Most operations of the queue keep a durable outcome that is there:
they write other columns, or require that there is none, as the stale
cancellation does. The exception is `terminalRun`, behind `failWorkflowRun` and
`cancelWorkflowRun`, which looks at the entry and the lease only and then writes
its own outcome. `Overwrites` says when that happens, and a run of the queue keeps
an outcome exactly as long as it does not.
-/

namespace PiWorkflows

open Fallible

/-- The terminal status of a run and its error, if it has one. -/
def durableOutcome (db : Db) (runId : String) : Option (StoredRunStatus × Option String) :=
  (db.runs.get? runId).bind RunRow.outcome

/-- The database after one call. -/
def queueCall (sha256 : String → String) (db : Db) (operation : QueueOperation) :
    Except String Db :=
  (execute sha256 db operation).map Prod.fst

/-- The database after the calls; one that throws changes nothing. -/
def queueCalls (sha256 : String → String) (db : Db) (operations : List QueueOperation) : Db :=
  Trace.served (queueCall sha256) db operations

/-- What a call asks `terminalRun` for. -/
structure Ending where
  runId : String
  claimToken : Option String
  outcome : TerminalOutcome
  error : String
  now : Int

def QueueOperation.ending : QueueOperation → Option Ending
  | .fail runId claimToken _ errorMessage now => some ⟨runId, claimToken, .failed, errorMessage, now⟩
  | .cancel runId claimToken now =>
      some ⟨runId, claimToken, .cancelled, "Workflow run cancelled", now⟩
  | _ => none

/-- The call passes the guards of `terminalRun` on a run that has an outcome, and
not the one the call writes. -/
def Overwrites (sha256 : String → String) (db : Db) (operation : QueueOperation) (runId : String) :
    Prop :=
  ∃ ending row, operation.ending = some ending ∧ ending.runId = runId ∧
    workflowRunRow db runId = some row ∧ row.queue.status.isTerminal = false ∧
    mayTerminate sha256 row ending.claimToken ending.now = true ∧
    row.run.status.isTerminal = true ∧
    (row.run.status, row.run.error) ≠ (ending.outcome.runStatus, some ending.error)

section

variable {sha256 : String → String} {db db' : Db} {runId : String}
  {o : StoredRunStatus × Option String}

theorem durableOutcome_row {row : QueuedRun} (hrow : workflowRunRow db runId = some row) :
    durableOutcome db runId = row.run.outcome := by
  rw [durableOutcome, (workflowRunRow_some.1 hrow).1]
  rfl

theorem outcome_some {run : RunRow} :
    run.outcome = some o ↔ run.status.isTerminal = true ∧ (run.status, run.error) = o := by
  rw [RunRow.outcome]
  split
  · next h => simp [h]
  · next h => simp [h]

theorem RowUpdate.durableOutcome {row row' : QueuedRun} {k : String}
    (h : RowUpdate db db' k row row') :
    durableOutcome db' runId =
      if runId = k then row'.run.outcome else durableOutcome db runId := by
  rw [PiWorkflows.durableOutcome, h.runs]
  split <;> rfl

theorem QueueChange.outcome_kept {claimed : Option (String × String)}
    (h : QueueChange sha256 false db claimed db') (ho : durableOutcome db runId = some o) :
    durableOutcome db' runId = some o := by
  cases h with
  | same => exact ho
  | @row k row row' _ _ hupdate hstep =>
      rw [hupdate.durableOutcome]
      split
      · next heq =>
          subst heq
          rw [durableOutcome_row hupdate.before] at ho
          exact hstep.outcome rfl o ho
      · exact ho
  | @reserved options _ hreserved =>
      have hne : runId ≠ options.runId := by
        rintro rfl
        rw [durableOutcome, hreserved.runs.1] at ho
        cases ho
      rw [durableOutcome, hreserved.runs.2 runId hne]
      exact ho
  | expired hruns =>
      rw [durableOutcome, hruns]
      exact ho

/-- The call gets past the guards of `terminalRun`. -/
def PassesGuards (sha256 : String → String) (db : Db) (ending : Ending) : Prop :=
  ∃ row, workflowRunRow db ending.runId = some row ∧ row.queue.status.isTerminal = false ∧
    mayTerminate sha256 row ending.claimToken ending.now = true

theorem terminalRun_guarded {ending : Ending} (code : String)
    (h : ¬ PassesGuards sha256 db ending) :
    terminalRun sha256 db ending.runId ending.claimToken ending.outcome code ending.error
      ending.now = (db, false) := by
  refine terminalRun_refused fun row hrow hopen => ?_
  by_contra hmay
  exact h ⟨row, hrow, hopen, by simpa using hmay⟩

theorem not_overwrites_of_guarded {operation : QueueOperation} {ending : Ending}
    (hending : operation.ending = some ending) (h : ¬ PassesGuards sha256 db ending) :
    ¬ Overwrites sha256 db operation runId := by
  rintro ⟨ending', row, hending', rfl, hrow, hopen, hmay, -⟩
  obtain rfl : ending = ending' := by rw [hending] at hending'; exact Option.some.inj hending'
  exact h ⟨row, hrow, hopen, hmay⟩

/-- Past the guards, an outcome is kept exactly if it is not overwritten. -/
theorem terminalRun_outcome {operation : QueueOperation} {ending : Ending} (code : String)
    (hending : operation.ending = some ending) (h : PassesGuards sha256 db ending)
    (ho : durableOutcome db runId = some o) :
    ∃ db', terminalRun sha256 db ending.runId ending.claimToken ending.outcome code ending.error
        ending.now = (db', true) ∧
      (durableOutcome db' runId = some o ↔ ¬ Overwrites sha256 db operation runId) := by
  obtain ⟨row, hrow, hopen, hmay⟩ := h
  obtain ⟨db', row', hended, hupdate, -, houtcome⟩ := terminalRun_ends hrow hopen hmay
  refine ⟨db', hended, ?_⟩
  rw [hupdate.durableOutcome]
  by_cases hrun : runId = ending.runId
  · subst hrun
    rw [durableOutcome_row hrow, outcome_some] at ho
    obtain ⟨hterminal, rfl⟩ := ho
    rw [if_pos rfl, houtcome, Option.some.injEq]
    constructor
    · rintro hsame ⟨ending', row₁, hending', -, hrow₁, -, -, -, hne⟩
      obtain rfl : ending = ending' := by rw [hending] at hending'; exact Option.some.inj hending'
      obtain rfl : row = row₁ := by rw [hrow] at hrow₁; exact Option.some.inj hrow₁
      exact hne hsame.symm
    · intro hkept
      by_contra hne
      exact hkept ⟨ending, row, hending, rfl, hrow, hopen, hmay, hterminal, fun h => hne h.symm⟩
  · rw [if_neg hrun]
    refine iff_of_true ho ?_
    rintro ⟨ending', -, hending', hrun', -⟩
    obtain rfl : ending = ending' := by rw [hending] at hending'; exact Option.some.inj hending'
    exact hrun hrun'.symm

/-- One call keeps an outcome exactly if it does not overwrite it. -/
theorem queueCall_outcome (operation : QueueOperation) (ho : durableOutcome db runId = some o) :
    durableOutcome (Trace.serve (queueCall sha256) db operation) runId = some o ↔
      ¬ Overwrites sha256 db operation runId := by
  -- An operation that ends no run keeps every outcome, whether it throws or not.
  have hother : operation.forces = false → operation.ending = none →
      (durableOutcome (Trace.serve (queueCall sha256) db operation) runId = some o ↔
        ¬ Overwrites sha256 db operation runId) := by
    intro hforces hending
    refine iff_of_true ?_ ?_
    · unfold Trace.serve
      split
      · next db' h =>
          simp only [queueCall, map_ok] at h
          obtain ⟨⟨_, answer⟩, hexecute, rfl⟩ := h
          have hchange := execute_change hexecute
          rw [hforces] at hchange
          exact hchange.outcome_kept ho
      · exact ho
    · rintro ⟨ending, -, hsome, -⟩
      rw [hending] at hsome
      cases hsome
  cases operation with
  | fail k claimToken errorCode errorMessage now =>
      have hending : (QueueOperation.fail k claimToken errorCode errorMessage now).ending =
        some ⟨k, claimToken, .failed, errorMessage, now⟩ := rfl
      show durableOutcome (terminalRun sha256 db k claimToken .failed errorCode errorMessage now).1
        runId = some o ↔ _
      by_cases h : PassesGuards sha256 db ⟨k, claimToken, .failed, errorMessage, now⟩
      · obtain ⟨db', hended, hiff⟩ := terminalRun_outcome errorCode hending h ho
        dsimp only at hended
        rw [hended]
        exact hiff
      · have hrefused := terminalRun_guarded errorCode h
        dsimp only at hrefused
        rw [hrefused]
        exact iff_of_true ho (not_overwrites_of_guarded hending h)
  | cancel k claimToken now =>
      have hending : (QueueOperation.cancel k claimToken now).ending =
        some ⟨k, claimToken, .cancelled, "Workflow run cancelled", now⟩ := rfl
      by_cases h : PassesGuards sha256 db ⟨k, claimToken, .cancelled, "Workflow run cancelled", now⟩
      · obtain ⟨db', hended, hiff⟩ := terminalRun_outcome "cancelled" hending h ho
        have hcall : queueCall sha256 db (.cancel k claimToken now) = .ok db' := by
          dsimp only at hended
          rw [queueCall, execute, cancelWorkflowRun, hended]
          rfl
        rw [Trace.serve, hcall]
        exact hiff
      · have hrefused := terminalRun_guarded "cancelled" h
        dsimp only at hrefused
        refine iff_of_true ?_ (not_overwrites_of_guarded hending h)
        unfold Trace.serve
        split
        · next db' hcall =>
            simp only [queueCall, execute, cancelWorkflowRun, hrefused, map_ok] at hcall
            obtain ⟨_, ⟨⟨_, accepted⟩, hcancel, rfl⟩, rfl⟩ := hcall
            split at hcancel
            · cases hcancel
              exact ho
            · have hchange : QueueChange sha256 false db none _ := cancelStaleWorkflowRun_ok hcancel
              exact hchange.outcome_kept ho
        · exact ho
  | reserve | reserveOrAdopt | claim | claimNext | renew | markRunning | park | complete
  | parkForRunnerNoProgress | parkForSourceChange | parkForAmbiguousEffect
  | beginInteractionTimeout | pauseParked | resumePausedInteraction | requestResume | cancelStale
  | expireServerLeases => exact hother rfl rfl

/-- A run of the queue keeps the durable outcome of a run, in every state it
reaches, exactly if none of its calls overwrites it. -/
theorem queueCalls_outcome_iff (operations : List QueueOperation)
    (ho : durableOutcome db runId = some o) :
    (∀ calls, calls <+: operations →
      durableOutcome (queueCalls sha256 db calls) runId = some o) ↔
    (∀ calls operation, calls ++ [operation] <+: operations →
      ¬ Overwrites sha256 (queueCalls sha256 db calls) operation runId) := by
  have hsnoc : ∀ calls operation, queueCalls sha256 db (calls ++ [operation]) =
      Trace.serve (queueCall sha256) (queueCalls sha256 db calls) operation := by
    intro calls operation
    rw [queueCalls, Trace.served_append]
    rfl
  constructor
  · intro hkept calls operation hpre
    have hbefore := hkept calls ((List.prefix_append calls [operation]).trans hpre)
    have hafter := hkept (calls ++ [operation]) hpre
    rw [hsnoc] at hafter
    exact (queueCall_outcome operation hbefore).1 hafter
  · intro hsafe calls
    -- By induction on the calls made, from the first one on.
    induction calls using List.reverseRecOn with
    | nil => exact fun _ => ho
    | append_singleton calls operation ih =>
        intro hpre
        have hbefore := ih ((List.prefix_append calls [operation]).trans hpre)
        rw [hsnoc]
        exact (queueCall_outcome operation hbefore).2 (hsafe calls operation hpre)

end

/-- A run that its engine has completed while its runner still holds the claim. -/
def completedRun : Db :=
  (queueRun id .initial
    [.call (.reserve
        { runId := "run", workflowName := "review", workflowSourceRef := "builtin:review"
          workflowSource := .null, definitionDigest := String.ofList (List.replicate 64 'a')
          input := .null, originSessionId := "session", executionMode := some .headless } 0),
      .call (.claim "run" "server-1" "token" 30 1 {}),
      .call (.markRunning "run" "token" 2),
      .elsewhere fun db => db.updateRun "run" fun run =>
        { run with status := .completed, finishedAt := some 3 }]).db

theorem completedRun_overwritten :
    durableOutcome completedRun "run" = some (.completed, none) ∧
      durableOutcome (queueCalls id completedRun
        [.fail "run" (some "token") "runnerFailed" "the runner stopped" 4]) "run" =
          some (.failed, some "the runner stopped") := by
  decide

/-- Completing the queue entry does not touch the outcome. -/
theorem completedRun_kept :
    durableOutcome completedRun "run" = some (.completed, none) ∧
      ∀ calls, calls <+: [QueueOperation.complete "run" "token" 4] →
        durableOutcome (queueCalls id completedRun calls) "run" = some (.completed, none) := by
  have hcompleted : durableOutcome completedRun "run" = some (.completed, none) := by decide
  refine ⟨hcompleted, (queueCalls_outcome_iff _ hcompleted).2 ?_⟩
  rintro calls operation hpre ⟨ending, row, hending, -⟩
  have hmem : operation ∈ [QueueOperation.complete "run" "token" 4] :=
    hpre.subset (List.mem_append_right calls List.mem_cons_self)
  obtain rfl := List.mem_singleton.1 hmem
  cases hending

end PiWorkflows
