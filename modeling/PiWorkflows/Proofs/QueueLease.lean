import PiWorkflows.Proofs.QueueSteps

/-!
# The queue is fenced

Any number of parties call the queue in any order, with any tokens and any
times, and between their calls the rest of the program writes its own tables. The
state of such a run is the database with the claims made so far. Its entries are
cells of `Lib.Fence`, and every call is one of the moves allowed there, so the
library's invariant holds in every state: an entry with a terminal status has a
lease without an owner, and the owner of a lease has the token of the last claim.
The sessions need an invariant of their own, `SessionsHeld`, which ties an entry
to its binding.

That a token from before the last claim does nothing uses that different tokens
have different digests, since a lease keeps the digest only.
-/

namespace PiWorkflows

open Fallible Fence

/-! ## Runs -/

/-- A call of the queue, or a write of some other part of the program, which
leaves the entries, the leases and the bindings alone. -/
inductive QueueAction where
  | call (operation : QueueOperation)
  | elsewhere (write : Db → Db)

/-- A database with the claims made so far, the latest first. -/
structure QueueState where
  db : Db
  claims : List (String × String)

/-- Before the first call. -/
def QueueState.initial : QueueState := ⟨.empty, []⟩

def queueStep (sha256 : String → String) (s : QueueState) : QueueAction → Except String QueueState
  | .call operation =>
      (execute sha256 s.db operation).map fun r => ⟨r.1, r.2.claimed.toList ++ s.claims⟩
  | .elsewhere write =>
      let written := write s.db
      .ok { s with
        db := { written with
          runQueue := s.db.runQueue, leases := s.db.leases, bindings := s.db.bindings } }

/-- The state after the actions; one that is refused changes nothing. -/
def queueRun (sha256 : String → String) (s : QueueState) (actions : List QueueAction) : QueueState :=
  Trace.served (queueStep sha256) s actions

/-! ## The invariants -/

/-- The claims as their digests. -/
def claimDigests (sha256 : String → String) (claims : List (String × String)) :
    List (String × String) :=
  claims.map fun e => (e.1, sha256 e.2)

/-- An entry has a lease and the binding that says which session it holds, and no
session is held by two open entries. -/
structure SessionsHeld (db : Db) : Prop where
  leased : ∀ k queue, db.runQueue.get? k = some queue → (db.leases.get? k).isSome = true
  bound : ∀ k queue, db.runQueue.get? k = some queue → ∃ binding, db.bindings.get? k = some binding ∧
    queue.originSessionId =
      if binding.executionMode = .headless then none else some binding.originSessionId
  alone : ∀ k j queue queue' session, db.runQueue.get? k = some queue →
    db.runQueue.get? j = some queue' → queue.originSessionId = some session →
    queue'.originSessionId = some session → queue.status.isTerminal = false →
    queue'.status.isTerminal = false → k = j

structure QueueInv (sha256 : String → String) (s : QueueState) : Prop where
  cells : AllSound (claimDigests sha256 s.claims) (queueCells s.db)
  sessions : SessionsHeld s.db

theorem queueInv_initial (sha256 : String → String) : QueueInv sha256 .initial := by
  constructor
  · intro k c hc
    cases hc
  · constructor <;> intros <;> contradiction

section

variable {sha256 : String → String} {db db' : Db} {forced : Bool}

/-! ## One change -/

theorem QueueChange.moves {claimed : Option (String × String)}
    (h : QueueChange sha256 forced db claimed db') :
    Moves (claimed.map fun e => (e.1, sha256 e.2)) (queueCells db) (queueCells db') := by
  cases h with
  | same => exact .same fun _ => rfl
  | row token hupdate hstep =>
      have hmoves := hupdate.moves hstep.cell
      rw [Option.map_map] at hmoves ⊢
      exact hmoves
  | @reserved options _ hreserved =>
      obtain ⟨queue, hqueued, -, hqueue⟩ := hreserved.runQueue
      obtain ⟨hfree, hleases⟩ := hreserved.leases
      refine Moves.add (k := options.runId) ?_ ?_
      · rw [queueCells, hfree]
        cases db.runQueue.get? options.runId <;> rfl
      · intro j
        rw [queueCells, hqueue, hleases]
        split
        · show some (cellOf queue ⟨0, none⟩) = _
          rw [cellOf, queueOutcome_open.2 (by rw [hqueued]; rfl)]
          rfl
        · rfl
  | expired hruns hqueue hbindings hleases =>
      refine Moves.same fun k => ?_
      obtain ⟨f, hf, hlease⟩ := hleases k
      rw [queueCells, queueCells, hqueue, hlease]
      cases db.runQueue.get? k with
      | none => rfl
      | some queue =>
          cases db.leases.get? k with
          | none => rfl
          | some lease => exact congrArg some (cellOf_times hf)

/-- An entry that is open after a step of a sound cell was open before. -/
theorem RowStep.open_before {token : Option String} {row row' : QueuedRun} {last : Option String}
    (hstep : RowStep forced token row row') (hsound : Sound last (cellOf row.queue row.lease))
    (hopen : row'.queue.status.isTerminal = false) : row.queue.status.isTerminal = false := by
  by_contra hover
  have houtcome : (cellOf row.queue row.lease).outcome = some row.queue.status :=
    queueOutcome_some.2 ⟨rfl, by simpa using hover⟩
  have hkept := hstep.cell.outcome_kept hsound houtcome
  have hover' := (queueOutcome_some.1 hkept)
  rw [hover'.1] at hopen
  rw [hopen] at hover'
  cases hover'.2

theorem SessionsHeld.row_updated {runId : String} {row row' : QueuedRun}
    (h : SessionsHeld db) (hupdate : RowUpdate db db' runId row row')
    (hsession : row'.queue.originSessionId = row.queue.originSessionId)
    (hopen : row'.queue.status.isTerminal = false → row.queue.status.isTerminal = false) :
    SessionsHeld db' := by
  obtain ⟨-, hqueue, -, -⟩ := workflowRunRow_some.1 hupdate.before
  -- Every entry stands for an entry of before, of the same session and not opened since.
  have hbefore : ∀ k queue', db'.runQueue.get? k = some queue' → ∃ queue,
      db.runQueue.get? k = some queue ∧ queue'.originSessionId = queue.originSessionId ∧
      (queue'.status.isTerminal = false → queue.status.isTerminal = false) := by
    intro k queue' hk
    rw [hupdate.runQueue] at hk
    split at hk
    · next heq =>
        cases hk
        exact ⟨row.queue, heq ▸ hqueue, hsession, hopen⟩
    · exact ⟨queue', hk, rfl, id⟩
  constructor
  · intro k queue' hk
    obtain ⟨queue, hqueue, -⟩ := hbefore k queue' hk
    rw [hupdate.leases]
    split
    · rfl
    · exact h.leased k queue hqueue
  · intro k queue' hk
    obtain ⟨queue, hqueue, heq, -⟩ := hbefore k queue' hk
    rw [hupdate.bindings, heq]
    exact h.bound k queue hqueue
  · intro k j queue₁' queue₂' session hk hj hs₁ hs₂ ho₁ ho₂
    obtain ⟨queue₁, hqueue₁, heq₁, hopen₁⟩ := hbefore k queue₁' hk
    obtain ⟨queue₂, hqueue₂, heq₂, hopen₂⟩ := hbefore j queue₂' hj
    exact h.alone k j queue₁ queue₂ session hqueue₁ hqueue₂ (heq₁ ▸ hs₁) (heq₂ ▸ hs₂)
      (hopen₁ ho₁) (hopen₂ ho₂)

theorem SessionsHeld.reserved {options : ReservationOptions} (h : SessionsHeld db)
    (hreserved : Reserved db db' options) : SessionsHeld db' := by
  obtain ⟨new, hqueued, hsession, hqueue⟩ := hreserved.runQueue
  obtain ⟨-, hleases⟩ := hreserved.leases
  -- The new entry is alone: the session it holds had no active entry.
  have hnew : ∀ k queue session, db.runQueue.get? k = some queue →
      queue.originSessionId = some session → queue.status.isTerminal = false →
      new.originSessionId ≠ some session := by
    intro k queue session hk hs hopen hheld
    rw [hsession] at hheld
    rw [hreserved.alone session hheld k queue hk hs] at hopen
    cases hopen
  constructor
  · intro k queue hk
    rw [hqueue] at hk
    rw [hleases]
    split at hk
    · next heq => rw [if_pos heq]; rfl
    · next hne => rw [if_neg hne]; exact h.leased k queue hk
  · intro k queue hk
    rw [hqueue] at hk
    rw [hreserved.bindings]
    split at hk
    · next heq =>
        cases hk
        refine ⟨_, if_pos heq, ?_⟩
        rw [hsession, sessionReservation]
        cases options.executionMode with
        | none => rfl
        | some mode => cases mode <;> rfl
    · next hne => rw [if_neg hne]; exact h.bound k queue hk
  · intro k j queue queue' session hk hj hs hs' ho ho'
    rw [hqueue] at hk hj
    split at hk
    · next heq =>
        split at hj
        · next heq' => rw [heq, heq']
        · next hne =>
            cases hk
            exact absurd hs (hnew j queue' session hj hs' ho')
    · next hne =>
        split at hj
        · next heq' =>
            cases hj
            exact absurd hs' (hnew k queue session hk hs ho)
        · exact h.alone k j queue queue' session hk hj hs hs' ho ho'

theorem QueueChange.sessionsHeld {claimed : Option (String × String)}
    {claims : List (String × String)} (h : QueueChange sha256 forced db claimed db')
    (hcells : AllSound claims (queueCells db)) (hsessions : SessionsHeld db) : SessionsHeld db' := by
  cases h with
  | same => exact hsessions
  | @row runId _ _ _ token hupdate hstep =>
      obtain ⟨-, hqueue, hlease, -⟩ := workflowRunRow_some.1 hupdate.before
      have hsound := hcells runId _ (queueCells_some hqueue hlease)
      exact hsessions.row_updated hupdate hstep.session (hstep.open_before hsound)
  | reserved hreserved => exact hsessions.reserved hreserved
  | expired hruns hqueue hbindings hleases =>
      constructor
      · intro k queue hk
        obtain ⟨f, -, hlease⟩ := hleases k
        rw [hqueue] at hk
        rw [hlease, Option.isSome_map]
        exact hsessions.leased k queue hk
      · rw [hqueue, hbindings]
        exact hsessions.bound
      · rw [hqueue]
        exact hsessions.alone

/-- A claim makes the next generation of the lease. -/
theorem QueueChange.generation {claimed : Option (String × String)} {runId token : String}
    (h : QueueChange sha256 forced db claimed db') (hclaimed : claimed = some (runId, token)) :
    ∃ lease lease', db.leases.get? runId = some lease ∧ db'.leases.get? runId = some lease' ∧
      lease'.generation = lease.generation + 1 := by
  cases h with
  | same => cases hclaimed
  | reserved => cases hclaimed
  | expired => cases hclaimed
  | @row claimedRun row row' _ made hupdate hstep =>
      cases made with
      | none => cases hclaimed
      | some made =>
          cases hclaimed
          obtain ⟨-, -, hlease, -⟩ := workflowRunRow_some.1 hupdate.before
          have hlease' := hupdate.leases runId
          rw [if_pos rfl] at hlease'
          exact ⟨row.lease, row'.lease, hlease, hlease', hstep.cell.generation_claimed⟩

/-! ## Whole runs -/

theorem queueStep_inv {s s' : QueueState} {action : QueueAction} (h : QueueInv sha256 s)
    (hstep : queueStep sha256 s action = .ok s') : QueueInv sha256 s' := by
  cases action with
  | call operation =>
      simp only [queueStep, map_ok] at hstep
      obtain ⟨⟨db', answer⟩, hexecute, rfl⟩ := hstep
      have hchange := execute_change hexecute
      constructor
      · have hsound := hchange.moves.sound h.cells
        have hdigests : claimDigests sha256 (answer.claimed.toList ++ s.claims) =
            (answer.claimed.map fun e => (e.1, sha256 e.2)).toList ++
              claimDigests sha256 s.claims := by
          cases answer.claimed <;> rfl
        rw [hdigests]
        exact hsound
      · exact hchange.sessionsHeld h.cells h.sessions
  | elsewhere write =>
      cases hstep
      exact ⟨h.cells, h.sessions.leased, h.sessions.bound, h.sessions.alone⟩

theorem queueRun_inv (actions : List QueueAction) :
    QueueInv sha256 (queueRun sha256 .initial actions) :=
  Trace.served_invariant (fun _ _ _ h hstep => queueStep_inv h hstep) (queueInv_initial sha256)
    actions

/-- The entry of the run has the status. -/
def HasQueueStatus (runId : String) (status : QueueStatus) (s : QueueState) : Prop :=
  ∃ queue, s.db.runQueue.get? runId = some queue ∧ queue.status = status

theorem queueStep_terminal {s s' : QueueState} {action : QueueAction} {runId : String}
    {status : QueueStatus} (h : QueueInv sha256 s) (hterminal : status.isTerminal = true)
    (hstatus : HasQueueStatus runId status s) (hstep : queueStep sha256 s action = .ok s') :
    HasQueueStatus runId status s' := by
  obtain ⟨queue, hqueue, rfl⟩ := hstatus
  cases action with
  | call operation =>
      simp only [queueStep, map_ok] at hstep
      obtain ⟨⟨db', answer⟩, hexecute, rfl⟩ := hstep
      obtain ⟨lease, hlease⟩ := Option.isSome_iff_exists.1 (h.sessions.leased runId queue hqueue)
      have hcell := queueCells_some hqueue hlease
      obtain ⟨c', hc', hmove⟩ := (execute_change hexecute).moves.old runId _ hcell
      have hkept := hmove.outcome_kept (h.cells runId _ hcell)
        (queueOutcome_some.2 ⟨rfl, hterminal⟩)
      simp only [queueCells, Option.bind_eq_bind, Option.pure_def, Option.bind_eq_some_iff,
        Option.some.injEq] at hc'
      obtain ⟨queue', hqueue', lease', -, rfl⟩ := hc'
      exact ⟨queue', hqueue', (queueOutcome_some.1 hkept).1⟩
  | elsewhere write =>
      cases hstep
      exact ⟨queue, hqueue, rfl⟩

theorem queueRun_terminal {s : QueueState} {runId : String} {status : QueueStatus}
    (h : QueueInv sha256 s) (hterminal : status.isTerminal = true)
    (hstatus : HasQueueStatus runId status s) (later : List QueueAction) :
    HasQueueStatus runId status (queueRun sha256 s later) := by
  have hstep : ∀ s action s', QueueInv sha256 s ∧ HasQueueStatus runId status s →
      queueStep sha256 s action = .ok s' → QueueInv sha256 s' ∧ HasQueueStatus runId status s' := by
    rintro s action s' ⟨hs, hstatus⟩ hstep
    exact ⟨queueStep_inv hs hstep, queueStep_terminal hs hterminal hstatus hstep⟩
  exact (Trace.served_invariant hstep ⟨h, hstatus⟩ later).2

/-- The lease of a terminal entry has no owner. -/
theorem QueueInv.terminal_free {s : QueueState} (h : QueueInv sha256 s) {runId : String}
    {queue : QueueRow} (hqueue : s.db.runQueue.get? runId = some queue)
    (hterminal : queue.status.isTerminal = true) :
    ∃ lease, s.db.leases.get? runId = some lease ∧ lease.owner = none := by
  obtain ⟨lease, hlease⟩ := Option.isSome_iff_exists.1 (h.sessions.leased runId queue hqueue)
  have hsound := h.cells runId _ (queueCells_some hqueue hlease)
  have houtcome : (cellOf queue lease).outcome ≠ none := by
    rw [cellOf, queueOutcome_some.2 ⟨rfl, hterminal⟩]
    exact Option.some_ne_none _
  exact ⟨lease, hlease, Option.map_eq_none_iff.1 (hsound.released houtcome)⟩

/-- Only the token of the last claim holds a lease. -/
theorem QueueInv.held_latest {s : QueueState} (h : QueueInv sha256 s)
    (hsha256 : Function.Injective sha256) {runId token latest : String} {now : Int} {row : QueuedRun}
    (hlatest : s.claims.lookup runId = some latest) (hrow : workflowRunRow s.db runId = some row)
    (hheld : row.lease.isHeldBy sha256 token now = true) : token = latest := by
  obtain ⟨-, hqueue, hlease, -⟩ := workflowRunRow_some.1 hrow
  have hholder := (h.cells runId _ (queueCells_some hqueue hlease)).latest _ (isHeldBy_holder hheld)
  have hdigest : (claimDigests sha256 s.claims).lookup runId = some (sha256 latest) := by
    rw [claimDigests, Assoc.lookup_map (fun _ token => sha256 token), hlatest]
    rfl
  rw [hdigest] at hholder
  exact (hsha256 (Option.some.inj hholder)).symm

/-- Without the token of the lease an operation does nothing. -/
theorem execute_unheld {operation : QueueOperation} {runId token : String}
    (hpresented : operation.presented = some (runId, token))
    (hunheld : ∀ row now, workflowRunRow db runId = some row →
      row.lease.isHeldBy sha256 token now = false) :
    execute sha256 db operation = .ok (db, { accepted := false }) := by
  have hverify : ∀ now, ¬ verifyWorkflowRunClaim sha256 db runId token now = true := by
    intro now hverified
    obtain ⟨row, hrow, hheld⟩ := verifyWorkflowRunClaim_ok hverified
    rw [hunheld row now hrow] at hheld
    cases hheld
  have hterminal : ∀ outcome code error now,
      terminalRun sha256 db runId (some token) outcome code error now = (db, false) :=
    fun outcome code error now => terminalRun_refused fun row hrow _ => hunheld row now hrow
  have hpark : ∀ now errorCode detail conflict,
      parkForError sha256 db runId token now errorCode detail conflict = .ok (db, false) := by
    intro now errorCode detail conflict
    unfold parkForError
    split
    · rfl
    · next row hrow => rw [hunheld row now hrow]; rfl
  cases operation with
  | renew _ _ leaseMs now =>
      cases hpresented
      rw [execute, renewWorkflowRunClaim, if_neg (hverify now)]
      rfl
  | markRunning _ _ now =>
      cases hpresented
      rw [execute, markWorkflowRunRunning, updateClaimedRunStatus, if_neg (hverify now)]
      rfl
  | park _ _ now =>
      cases hpresented
      rw [execute, parkWorkflowRun, releaseRunClaim, if_neg (hverify now)]
      rfl
  | complete _ _ now =>
      cases hpresented
      rw [execute, completeWorkflowRun, releaseRunClaim, if_neg (hverify now)]
      rfl
  | parkForRunnerNoProgress _ _ detail now =>
      cases hpresented
      rw [execute, parkWorkflowRunForRunnerNoProgress, hpark]
      rfl
  | parkForSourceChange _ _ detail now =>
      cases hpresented
      rw [execute, parkWorkflowRunForSourceChange, hpark]
      rfl
  | parkForAmbiguousEffect _ _ now =>
      cases hpresented
      rw [execute, parkWorkflowRunForAmbiguousEffect]
      split
      · rfl
      · next row hrow => rw [hunheld row now hrow]; rfl
  | beginInteractionTimeout _ targetSessionId _ now =>
      cases hpresented
      rw [execute, beginWorkflowRunInteractionTimeout]
      split
      · rfl
      · next row hrow => rw [hunheld row now hrow]; rfl
  | fail _ claimToken errorCode errorMessage now =>
      cases claimToken with
      | none => cases hpresented
      | some token =>
          cases hpresented
          rw [execute, failWorkflowRun, hterminal]
          rfl
  | cancel _ claimToken now =>
      cases claimToken with
      | none => cases hpresented
      | some token =>
          cases hpresented
          rw [execute, cancelWorkflowRun, hterminal]
          rfl
  | reserve | reserveOrAdopt | claim | claimNext | pauseParked | resumePausedInteraction
  | requestResume | cancelStale | expireServerLeases => cases hpresented

/-- Every run of the queue, from an empty database on. A terminal entry keeps its
status and its lease has no owner; the interactive runs of a session have one
open entry between them; a claim raises the generation of the lease by one; and
after a claim under one token an operation that presents another does nothing. -/
theorem queueRun_fenced (hsha256 : Function.Injective sha256) (actions : List QueueAction) :
    (∀ runId queue,
      (queueRun sha256 .initial actions).db.runQueue.get? runId = some queue →
      queue.status.isTerminal = true → ∀ later, ∃ queue' lease,
        (queueRun sha256 .initial (actions ++ later)).db.runQueue.get? runId = some queue' ∧
        queue'.status = queue.status ∧
        (queueRun sha256 .initial (actions ++ later)).db.leases.get? runId = some lease ∧
        lease.owner = none) ∧
    (∀ runId runId' queue queue' binding binding',
      (queueRun sha256 .initial actions).db.runQueue.get? runId = some queue →
      (queueRun sha256 .initial actions).db.runQueue.get? runId' = some queue' →
      (queueRun sha256 .initial actions).db.bindings.get? runId = some binding →
      (queueRun sha256 .initial actions).db.bindings.get? runId' = some binding' →
      binding.executionMode = .interactive → binding'.executionMode = .interactive →
      binding.originSessionId = binding'.originSessionId →
      queue.status ∈ [QueueStatus.queued, .starting, .running, .parked] →
      queue'.status ∈ [QueueStatus.queued, .starting, .running, .parked] → runId = runId') ∧
    (∀ operation db' answer runId token,
      execute sha256 (queueRun sha256 .initial actions).db operation = .ok (db', answer) →
      answer.claimed = some (runId, token) → ∃ lease lease',
        (queueRun sha256 .initial actions).db.leases.get? runId = some lease ∧
        db'.leases.get? runId = some lease' ∧ lease'.generation = lease.generation + 1) ∧
    (∀ operation runId token latest,
      (queueRun sha256 .initial actions).claims.lookup runId = some latest → token ≠ latest →
      operation.presented = some (runId, token) →
      execute sha256 (queueRun sha256 .initial actions).db operation =
        .ok ((queueRun sha256 .initial actions).db, { accepted := false })) := by
  have hinv : QueueInv sha256 (queueRun sha256 .initial actions) := queueRun_inv actions
  refine ⟨?_, ?_, ?_, ?_⟩
  · intro runId queue hqueue hterminal later
    have hlater : QueueInv sha256 (queueRun sha256 .initial (actions ++ later)) :=
      queueRun_inv (actions ++ later)
    have hkept : HasQueueStatus runId queue.status
        (queueRun sha256 .initial (actions ++ later)) := by
      rw [queueRun, Trace.served_append]
      exact queueRun_terminal hinv hterminal ⟨queue, hqueue, rfl⟩ later
    obtain ⟨queue', hqueue', hstatus⟩ := hkept
    obtain ⟨lease, hlease, hfree⟩ := hlater.terminal_free hqueue' (by rw [hstatus]; exact hterminal)
    exact ⟨queue', lease, hqueue', hstatus, hlease, hfree⟩
  · intro runId runId' queue queue' binding binding' hqueue hqueue' hb hb' hmode hmode' hsession
      hactive hactive'
    have hopen : ∀ status : QueueStatus,
        status ∈ [QueueStatus.queued, .starting, .running, .parked] → status.isTerminal = false := by
      decide
    have hbound : ∀ {k : String} {q : QueueRow} {b : BindingRow},
        (queueRun sha256 .initial actions).db.runQueue.get? k = some q →
        (queueRun sha256 .initial actions).db.bindings.get? k = some b →
        b.executionMode = .interactive → q.originSessionId = some b.originSessionId := by
      intro k q b hq hb hmode
      obtain ⟨b', hb', heq⟩ := hinv.sessions.bound k q hq
      obtain rfl : b = b' := by rw [hb] at hb'; exact Option.some.inj hb'
      rw [heq, hmode]
      rfl
    exact hinv.sessions.alone runId runId' queue queue' binding.originSessionId hqueue hqueue'
      (hbound hqueue hb hmode) (hsession ▸ hbound hqueue' hb' hmode')
      (hopen _ hactive) (hopen _ hactive')
  · intro operation db' answer runId token hexecute hclaimed
    exact (execute_change hexecute).generation hclaimed
  · intro operation runId token latest hlatest hne hpresented
    refine execute_unheld hpresented fun row now hrow => ?_
    by_contra hheld
    exact hne (hinv.held_latest hsha256 hlatest hrow (by simpa using hheld))

end

/-- A run that is claimed again after its first claim ran out. -/
def reclaimedRun : List QueueAction :=
  [.call (.reserve
      { runId := "run", workflowName := "review", workflowSourceRef := "builtin:review"
        workflowSource := .null, definitionDigest := String.ofList (List.replicate 64 'a')
        input := .null, originSessionId := "session", executionMode := some .headless } 0),
    .call (.claim "run" "server-1" "first" 10 1 {}),
    .call (.claim "run" "server-2" "second" 10 20 {})]

theorem reclaimedRun_fenced :
    execute id (queueRun id .initial reclaimedRun).db (.complete "run" "first" 21) =
      .ok ((queueRun id .initial reclaimedRun).db, { accepted := false }) :=
  (queueRun_fenced Function.injective_id reclaimedRun).2.2.2 _ "run" "first" "second"
    (by decide) (by decide) rfl

end PiWorkflows
