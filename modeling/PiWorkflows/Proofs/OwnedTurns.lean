import PiWorkflows.Proofs.FencedDelivery

/-!
# The turn that a coordinator owns

A pass reads the owned turn, waits for a reply, and then writes to it. While one pass runs
at a time, nobody else gets or gives up a turn meanwhile. But `clear` lets a second pass
begin beside a suspended one, and the turn that is owned when the first goes on can be
another. The reply to a start report is checked for that; the reply to an end report is
not, and the turn that it drops is the one reported only if no other has come (`DropsOwn`).

The log says what bears each step out (`Rightful`): the end of a turn is reported as it was
recorded, the start when the message is known to be an entry of the session, a turn is
taken over only when there is none.
-/

namespace PiWorkflows

/-- Who owns a turn, one event later. -/
def ownedNext (owner : Option String) : CoordinatorEvent → Option String
  | .owned workflowTurnId => some workflowTurnId
  | .dropped _ _ => none
  | _ => owner

/-- The turn that is owned after these events. -/
def ownedAfter (log : List CoordinatorEvent) : Option String :=
  log.foldl ownedNext none

/-- The view is known to list the message as sent, or the entry was reported. -/
def SentOrReported (log : List CoordinatorEvent) (v : Nat) (workflowMessageId : String) : Prop :=
  (∃ view message, CoordinatorEvent.viewed v view ∈ log ∧
    view.messageById workflowMessageId = some message ∧ message.status = .sent) ∨
  CoordinatorEvent.entryReported workflowMessageId ∈ log

theorem SentOrReported.mono {log log' : List CoordinatorEvent} (hsub : log ⊆ log') {v : Nat}
    {workflowMessageId : String} (h : SentOrReported log v workflowMessageId) :
    SentOrReported log' v workflowMessageId := by
  rcases h with ⟨view, message, hmem, hmessage, hsent⟩ | hmem
  · exact .inl ⟨view, message, hsub hmem, hmessage, hsent⟩
  · exact .inr (hsub hmem)

/-- What has to come before an event. -/
def CoordinatorEvent.Rightful (before : List CoordinatorEvent) : CoordinatorEvent → Prop
  | .owned _ => ownedAfter before = none
  | .dropped workflowTurnId cause =>
      ownedAfter before = some workflowTurnId ∧
        (cause = .ended → .endAccepted workflowTurnId ∈ before)
  | .settled workflowTurnId _ _ => ownedAfter before = some workflowTurnId
  | .startReported v _ workflowMessageId => SentOrReported before v workflowMessageId
  | .endReported workflowTurnId stopReason responseSessionEntryId =>
      .settled workflowTurnId stopReason responseSessionEntryId ∈ before
  | _ => True

/-- A turn is owned only when no other is. It is given up by `clear`, by a send that fails, or
when the server has accepted the report of its end. That report says what was recorded at its
end, and its start is reported for a message that is known to be sent. -/
def TurnsKept (log : List CoordinatorEvent) : Prop :=
  ∀ before event after, log = before ++ event :: after → event.Rightful before

theorem TurnsKept.concat {log : List CoordinatorEvent} (h : TurnsKept log)
    {event : CoordinatorEvent} (hevent : event.Rightful log) : TurnsKept (log ++ [event]) := by
  intro before e after heq
  rcases Coordinator.append_eq_split heq with ⟨-, rfl, rfl⟩ | ⟨after', -, hlog⟩
  · exact hevent
  · exact h before e after' hlog

namespace Coordinator

/-- The reply to the report of an end finds no other turn. -/
def DropsOwn (c : Coordinator) : Action → Prop
  | .resume index (.receipt receipt) _ =>
      ∀ pass view workflowTurnId message stopReason responseSessionEntryId next,
        c.passes[index]? = some pass → c.views[pass.view]? = some view →
        pass.await = .endReport workflowTurnId message stopReason responseSessionEntryId next →
        receipt.isValid view message workflowTurnId = true →
        ∀ turn, c.turn = some turn → turn.workflowTurnId = workflowTurnId
  | _ => True

/-! ## What the state knows of the log -/

/-- What is known of an owned turn. -/
structure TurnTracked (log : List CoordinatorEvent) (turn : OwnedTurn) : Prop where
  settled : ∀ stopReason responseSessionEntryId,
    turn.phase = .settled stopReason responseSessionEntryId →
      CoordinatorEvent.settled turn.workflowTurnId stopReason responseSessionEntryId ∈ log
  entry : turn.startedReported = false → turn.entryReported = true →
    CoordinatorEvent.entryReported turn.message.workflowMessageId ∈ log

/-- What is known of a view: a message that it lists as sent was so from the start, or its entry
was reported. -/
def ViewTracked (log : List CoordinatorEvent) (v : Nat) (view : SessionView) : Prop :=
  ∀ message, view.workflowMessage = some message → message.status = .sent →
    SentOrReported log v message.workflowMessageId

/-- What is known of a suspended pass: the end it is about to report was recorded, and a
terminal message is not pending. -/
def PassTracked (log : List CoordinatorEvent) (views : List SessionView) (pass : SuspendedPass) :
    Prop :=
  match pass.await with
  | .beforeTurnEnd workflowTurnId _ stopReason responseSessionEntryId _ =>
      CoordinatorEvent.settled workflowTurnId stopReason responseSessionEntryId ∈ log
  | .terminalDelivered _ => ∃ view message, views[pass.view]? = some view ∧
      view.workflowMessage = some message ∧ message.status = .sent
  | _ => True

structure Tracked (c : Coordinator) : Prop where
  kept : TurnsKept c.log
  owner : ownedAfter c.log = c.turn.map OwnedTurn.workflowTurnId
  turn : ∀ turn, c.turn = some turn → TurnTracked c.log turn
  views : ∀ v view, c.views[v]? = some view → ViewTracked c.log v view
  passes : ∀ pass ∈ c.passes, PassTracked c.log c.views pass

/-! ## A longer log -/

theorem TurnTracked.mono {log log' : List CoordinatorEvent} (hsub : log ⊆ log') {turn : OwnedTurn}
    (h : TurnTracked log turn) : TurnTracked log' turn :=
  ⟨fun stopReason entry hphase => hsub (h.settled stopReason entry hphase),
    fun hstarted hentry => hsub (h.entry hstarted hentry)⟩

theorem ViewTracked.mono {log log' : List CoordinatorEvent} (hsub : log ⊆ log') {v : Nat}
    {view : SessionView} (h : ViewTracked log v view) : ViewTracked log' v view :=
  fun message hmessage hsent => (h message hmessage hsent).mono hsub

theorem PassTracked.mono {log log' : List CoordinatorEvent} (hsub : log ⊆ log')
    {views : List SessionView} {pass : SuspendedPass} (h : PassTracked log views pass) :
    PassTracked log' views pass := by
  rw [PassTracked] at h ⊢
  split
  · next heq =>
      rw [heq] at h
      exact hsub h
  · next heq =>
      rw [heq] at h
      exact h
  · trivial

/-! ## Changes of the state -/

theorem Tracked.of_eq {c c' : Coordinator} (h : Tracked c) (hlog : c'.log = c.log)
    (hturn : c'.turn = c.turn) (hviews : c'.views = c.views) (hpasses : c'.passes = c.passes) :
    Tracked c' := by
  refine ⟨?_, ?_, ?_, ?_, ?_⟩
  · rw [hlog]
    exact h.kept
  · rw [hlog, hturn]
    exact h.owner
  · rw [hlog, hturn]
    exact h.turn
  · rw [hlog, hviews]
    exact h.views
  · rw [hlog, hviews, hpasses]
    exact h.passes

/-- An event that changes no owner. -/
theorem Tracked.note {c : Coordinator} (h : Tracked c) {event : CoordinatorEvent}
    (hright : event.Rightful c.log) (hsame : ∀ owner, ownedNext owner event = owner) :
    Tracked (c.note event) where
  kept := h.kept.concat hright
  owner := by
    show (c.log ++ [event]).foldl ownedNext none = _
    rw [List.foldl_append, List.foldl_cons, List.foldl_nil, hsame]
    exact h.owner
  turn turn hturn := (h.turn turn hturn).mono (List.subset_append_left _ _)
  views v view hview := (h.views v view hview).mono (List.subset_append_left _ _)
  passes pass hpass := (h.passes pass hpass).mono (List.subset_append_left _ _)

theorem Tracked.suspend {c : Coordinator} (h : Tracked c) {pass : SuspendedPass}
    (hpass : PassTracked c.log c.views pass) : Tracked (c.suspend pass) where
  kept := h.kept
  owner := h.owner
  turn := h.turn
  views := h.views
  passes p hp := by
    rcases List.mem_append.1 hp with hp | hp
    · exact h.passes p hp
    · rw [List.mem_singleton.1 hp]
      exact hpass

/-- The same turn, with other fields. -/
theorem Tracked.setTurn {c : Coordinator} (h : Tracked c) {turn turn' : OwnedTurn}
    (hturn : c.turn = some turn) (hid : turn'.workflowTurnId = turn.workflowTurnId)
    (htracked : TurnTracked c.log turn') : Tracked { c with turn := some turn' } where
  kept := h.kept
  owner := by
    rw [h.owner, hturn, Option.map_some, Option.map_some, hid]
  turn t ht := by
    obtain rfl := Option.some.inj ht
    exact htracked
  views := h.views
  passes := h.passes

theorem Tracked.mapTurn {c : Coordinator} (h : Tracked c) {f : OwnedTurn → OwnedTurn}
    (hid : ∀ turn, (f turn).workflowTurnId = turn.workflowTurnId)
    (htracked : ∀ turn, TurnTracked c.log turn → TurnTracked c.log (f turn)) :
    Tracked (c.mapTurn f) := by
  cases hturn : c.turn with
  | none =>
      refine h.of_eq rfl ?_ rfl rfl
      rw [Coordinator.mapTurn, hturn, Option.map_none]
  | some turn =>
      have heq : c.mapTurn f = { c with turn := some (f turn) } := by
        rw [Coordinator.mapTurn, hturn, Option.map_some]
      rw [heq]
      exact h.setTurn hturn (hid turn) (htracked turn (h.turn turn hturn))

/-- A change of a view after which its message is still known to be sent where it was. -/
theorem Tracked.modifyView {c : Coordinator} (h : Tracked c) (v : Nat)
    {f : SessionView → SessionView}
    (hview : ∀ view, c.views[v]? = some view → ViewTracked c.log v (f view))
    (hsent : ∀ view message, view.workflowMessage = some message → message.status = .sent →
      ∃ message', (f view).workflowMessage = some message' ∧ message'.status = .sent) :
    Tracked { c with views := c.views.modify v f } where
  kept := h.kept
  owner := h.owner
  turn := h.turn
  views w view hw := by
    rw [List.getElem?_modify] at hw
    split at hw
    · next heq =>
        subst heq
        obtain ⟨old, hold, rfl⟩ := Option.map_eq_some_iff.1 hw
        exact hview old hold
    · rw [Option.map_eq_map, Option.map_id'] at hw
      exact h.views w view hw
  passes pass hpass := by
    have hold := h.passes pass hpass
    rw [PassTracked] at hold ⊢
    split
    · next heq =>
        rw [heq] at hold
        exact hold
    · next heq =>
        rw [heq] at hold
        obtain ⟨view, message, hget, hmessage, hstatus⟩ := hold
        dsimp only
        rw [List.getElem?_modify, hget]
        split
        · obtain ⟨message', hmessage', hstatus'⟩ := hsent view message hmessage hstatus
          exact ⟨f view, message', rfl, hmessage', hstatus'⟩
        · exact ⟨view, message, rfl, hmessage, hstatus⟩
    · trivial

theorem Tracked.own {c : Coordinator} (h : Tracked c) (hnone : c.turn = none) {turn : OwnedTurn}
    (hturn : TurnTracked c.log turn) : Tracked (c.own turn) where
  kept := by
    refine h.kept.concat ?_
    show ownedAfter c.log = none
    rw [h.owner, hnone, Option.map_none]
  owner := by
    show (c.log ++ [_]).foldl ownedNext none = _
    rw [List.foldl_append]
    rfl
  turn t ht := by
    obtain rfl := Option.some.inj ht
    exact hturn.mono (List.subset_append_left _ _)
  views v view hview := (h.views v view hview).mono (List.subset_append_left _ _)
  passes pass hpass := (h.passes pass hpass).mono (List.subset_append_left _ _)

theorem Tracked.dropTurn {c : Coordinator} (h : Tracked c) {cause : DropCause}
    (hcause : cause = .ended → ∀ turn, c.turn = some turn →
      CoordinatorEvent.endAccepted turn.workflowTurnId ∈ c.log) :
    Tracked (dropTurn cause c) := by
  rw [Coordinator.dropTurn]
  cases hturn : c.turn with
  | none => exact h
  | some turn =>
      refine ⟨h.kept.concat ⟨?_, fun hended => hcause hended turn hturn⟩, ?_, ?_, ?_, ?_⟩
      · rw [h.owner, hturn, Option.map_some]
      · show (c.log ++ [_]).foldl ownedNext none = _
        rw [List.foldl_append]
        rfl
      · intro t ht
        cases ht
      · intro v view hview
        exact (h.views v view hview).mono (List.subset_append_left _ _)
      · intro pass hpass
        exact (h.passes pass hpass).mono (List.subset_append_left _ _)

/-! ## Pi's calls -/

theorem Tracked.piCall {c : Coordinator} (h : Tracked c) (call : PiCall) :
    Tracked (c.piCall call) := by
  cases call with
  | startTurn =>
      refine h.mapTurn (fun turn => ?_) fun turn hturn => ?_
      · split <;> rfl
      · split
        · exact ⟨fun stopReason entry hphase => (by cases hphase), hturn.entry⟩
        · exact hturn
  | endTurn stopReason responseSessionEntryId =>
      rw [Coordinator.piCall]
      cases hturn : c.turn with
      | none => exact h
      | some turn =>
          dsimp only
          split
          · have hnoted : Tracked (c.note
                (.settled turn.workflowTurnId stopReason responseSessionEntryId)) := by
              refine h.note ?_ fun _ => rfl
              show ownedAfter c.log = some turn.workflowTurnId
              rw [h.owner, hturn, Option.map_some]
            refine hnoted.setTurn hturn rfl ⟨fun reason entry hphase => ?_, fun hstarted hentry => ?_⟩
            · cases hphase
              exact List.mem_append_right _ List.mem_cons_self
            · exact List.mem_append_left _ ((h.turn turn hturn).entry hstarted hentry)
          · exact h

theorem Tracked.piCalls {c : Coordinator} (h : Tracked c) (calls : List PiCall) :
    Tracked (calls.foldl Coordinator.piCall c) := by
  induction calls generalizing c with
  | nil => exact h
  | cons call calls ih => exact ih (h.piCall call)

theorem Tracked.abort {c : Coordinator} (h : Tracked c) (isIdle : Bool) (onAbort : List PiCall) :
    Tracked (c.abortCancelledTurn isIdle onAbort) := by
  rw [abortCancelledTurn]
  split
  · refine Tracked.piCalls (h.mapTurn (fun turn => ?_) fun turn hturn => ?_) onAbort
    · rfl
    · exact ⟨hturn.settled, hturn.entry⟩
  · exact h

theorem views_piCall (c : Coordinator) (call : PiCall) : (c.piCall call).views = c.views := by
  cases call with
  | startTurn => rfl
  | endTurn stopReason responseSessionEntryId =>
      rw [Coordinator.piCall]
      split
      · rfl
      · split <;> rfl

theorem views_piCalls (c : Coordinator) (calls : List PiCall) :
    (calls.foldl Coordinator.piCall c).views = c.views := by
  induction calls generalizing c with
  | nil => rfl
  | cons call calls ih => exact (ih _).trans (views_piCall c call)

theorem views_abort (c : Coordinator) (isIdle : Bool) (onAbort : List PiCall) :
    (c.abortCancelledTurn isIdle onAbort).views = c.views := by
  rw [abortCancelledTurn]
  split
  · exact views_piCalls _ onAbort
  · rfl

/-! ## Reports -/

theorem Tracked.flushEnd {c : Coordinator} (h : Tracked c) {pending : OwnedTurn}
    (hturn : c.turn = some pending) (pass : SuspendedPass) (message : SessionMessage)
    (next : PassStage) : Tracked (c.flushEnd pass pending message next) := by
  rw [Coordinator.flushEnd]
  split
  · next stopReason entry hphase =>
      have hsettled := (h.turn pending hturn).settled stopReason entry hphase
      split
      · refine Tracked.suspend (h.note ?_ fun _ => rfl) trivial
        exact hsettled
      · exact h.suspend hsettled
  · exact h.suspend trivial

theorem Tracked.flushTurn {c : Coordinator} (h : Tracked c) {pass : SuspendedPass}
    {view : SessionView} (hview : c.views[pass.view]? = some view) (next : PassStage) :
    Tracked (c.flushTurn pass view next) := by
  have hdone : Tracked (c.suspend { pass with await := .resumption next }) := h.suspend trivial
  have hstart : ∀ (pending : OwnedTurn) (message : SessionMessage),
      SentOrReported c.log pass.view message.workflowMessageId →
      Tracked (c.reportStart pass pending message next) := by
    intro pending message hknown
    refine Tracked.suspend (h.note ?_ fun _ => rfl) trivial
    exact hknown
  rw [Coordinator.flushTurn]
  split
  · exact hdone
  · next pending hturn =>
      split
      · exact hdone
      · split
        · exact h.flushEnd hturn pass pending.message next
        · next hneither =>
            split
            · next confirmed hconfirmed =>
                split
                · next hsent =>
                    have hmessage := (Option.filter_eq_some_iff.1 hconfirmed).1
                    exact hstart pending confirmed (h.views pass.view view hview confirmed hmessage hsent)
                · exact hdone
            · split
              · next hentry =>
                  have hstarted : pending.startedReported = false := by
                    simpa using (not_or.1 hneither).1
                  exact hstart pending pending.message
                    (.inr ((h.turn pending hturn).entry hstarted hentry))
              · exact hdone

theorem Tracked.reportBranch {c : Coordinator} (h : Tracked c) (pass : SuspendedPass)
    (view : SessionView) (ownedDelivery : Option SessionMessage) (next : PassStage) (pi : PiState) :
    Tracked (c.reportBranch pass view ownedDelivery next pi) := by
  rw [Coordinator.reportBranch]
  split <;> exact h.suspend trivial

theorem markSent_tracked {log : List CoordinatorEvent} {v : Nat} {view : SessionView}
    {workflowMessageId : String} (entry : String)
    (hentry : CoordinatorEvent.entryReported workflowMessageId ∈ log)
    (h : ViewTracked log v view) : ViewTracked log v (markSent workflowMessageId entry view) := by
  intro message hmessage hsent
  obtain ⟨old, hold, rfl⟩ := Option.map_eq_some_iff.1 hmessage
  by_cases hnamed : old.workflowMessageId = workflowMessageId
  · rw [if_pos hnamed]
    refine .inr ?_
    rw [hnamed]
    exact hentry
  · rw [if_neg hnamed] at hsent ⊢
    exact h old hold hsent

theorem markSent_sent (workflowMessageId entry : String) {view : SessionView}
    {message : SessionMessage} (hmessage : view.workflowMessage = some message)
    (hsent : message.status = .sent) :
    ∃ message', (markSent workflowMessageId entry view).workflowMessage = some message' ∧
      message'.status = .sent := by
  rw [markSent, hmessage]
  refine ⟨_, rfl, ?_⟩
  dsimp only
  split
  · rfl
  · exact hsent

theorem Tracked.confirmEntry {c : Coordinator} (h : Tracked c) (v : Nat)
    (reported : Option SessionMessage) (owned : Bool) (entry : Option String) :
    Tracked (c.confirmEntry v reported owned entry) := by
  cases reported with
  | none => exact h
  | some message =>
      cases entry with
      | none => exact h
      | some entry =>
          have hnoted : Tracked (c.note (.entryReported message.workflowMessageId)) :=
            h.note trivial fun _ => rfl
          have hentry : CoordinatorEvent.entryReported message.workflowMessageId ∈
              (c.note (.entryReported message.workflowMessageId)).log :=
            List.mem_append_right _ List.mem_cons_self
          cases owned with
          | true =>
              refine hnoted.mapTurn (fun turn => ?_) fun turn hturn => ?_
              · split <;> rfl
              · split
                · next heq =>
                    refine ⟨hturn.settled, fun _ _ => ?_⟩
                    dsimp only
                    rw [heq]
                    exact hentry
                · exact hturn
          | false =>
              have hmarked := hnoted.modifyView v
                (fun view hview => markSent_tracked entry hentry (hnoted.views v view hview))
                fun view old hold hsent => markSent_sent message.workflowMessageId entry hold hsent
              exact hmarked.of_eq rfl rfl rfl rfl

theorem Tracked.branchReported {c : Coordinator} (h : Tracked c) (pass : SuspendedPass)
    (view : SessionView) (reported : Option SessionMessage) (owned : Bool)
    (entry : Option String) (next : PassStage) :
    Tracked (c.branchReported pass view reported owned entry next) := by
  have hconfirmed := h.confirmEntry pass.view reported owned entry
  cases owned with
  | true => exact hconfirmed.suspend trivial
  | false =>
      refine Tracked.suspend (hconfirmed.of_eq ?_ ?_ ?_ ?_) trivial
      all_goals rfl

theorem Tracked.startAnswered {c : Coordinator} (h : Tracked c) (pass : SuspendedPass)
    (workflowTurnId : String) (message : SessionMessage) (next : PassStage) (receipt : TurnReceipt) :
    Tracked (c.startAnswered pass workflowTurnId message next receipt) := by
  rw [Coordinator.startAnswered]
  cases hturn : c.turn with
  | none => exact h.suspend trivial
  | some pending =>
      have hpending := h.turn pending hturn
      dsimp only
      split
      · exact h.suspend trivial
      · split
        · have hstarted : Tracked { c with
              turn := some { pending with message, startedReported := true } } :=
            h.setTurn hturn rfl ⟨hpending.settled, fun hnot => (by cases hnot)⟩
          exact hstarted.flushEnd rfl pass message next
        · have hstopped : Tracked { c with turn := some { pending with stopRequested := true } } :=
            h.setTurn hturn rfl ⟨hpending.settled, hpending.entry⟩
          exact hstopped.suspend trivial

theorem Tracked.closeIn {c : Coordinator} (h : Tracked c) (workflowTurnId : String)
    (vs : List Nat) :
    Tracked (vs.foldl (Coordinator.closeIn workflowTurnId) c) ∧
      (vs.foldl (Coordinator.closeIn workflowTurnId) c).log = c.log ∧
      (vs.foldl (Coordinator.closeIn workflowTurnId) c).turn = c.turn := by
  induction vs generalizing c with
  | nil => exact ⟨h, rfl, rfl⟩
  | cons v vs ih =>
      refine ih (c := Coordinator.closeIn workflowTurnId c v) (h.modifyView v (fun view hview => ?_)
        fun _ message hmessage hsent => ⟨message, hmessage, hsent⟩)
      exact h.views v view hview

theorem Tracked.endAnswered {c : Coordinator} (h : Tracked c) {workflowTurnId : String}
    (hown : ∀ turn, c.turn = some turn → turn.workflowTurnId = workflowTurnId)
    (pass : SuspendedPass) (message : SessionMessage) (next : PassStage) :
    Tracked (c.endAnswered pass workflowTurnId message next) := by
  have hnoted : Tracked (c.note (.endAccepted workflowTurnId)) := h.note trivial fun _ => rfl
  have haccepted : CoordinatorEvent.endAccepted workflowTurnId ∈
      (c.note (.endAccepted workflowTurnId)).log := List.mem_append_right _ List.mem_cons_self
  have hdropped : ∀ (closed : Coordinator) (vs : List Nat), Tracked closed →
      closed.log = (c.note (.endAccepted workflowTurnId)).log → closed.turn = c.turn →
      Tracked (Coordinator.dropTurn .ended (vs.foldl (Coordinator.closeIn workflowTurnId) closed)) := by
    intro closed vs hclosed hlog hturn
    obtain ⟨htracked, hlog', hturn'⟩ := hclosed.closeIn workflowTurnId vs
    refine htracked.dropTurn fun _ turn hsome => ?_
    rw [hlog', hlog, hown turn ((hturn'.trans hturn).symm.trans hsome)]
    exact haccepted
  rw [Coordinator.endAnswered]
  refine Tracked.suspend ?_ trivial
  split
  · exact hdropped _ _ (hnoted.of_eq rfl rfl rfl rfl) rfl rfl
  · exact hdropped _ _ hnoted rfl rfl

/-! ## Passes -/

theorem Tracked.afterFirstFlush {c : Coordinator} (h : Tracked c) {pass : SuspendedPass}
    {view : SessionView} (hview : c.views[pass.view]? = some view) (pi : PiState) :
    Tracked (c.afterFirstFlush pass view pi) := by
  rw [Coordinator.afterFirstFlush]
  split
  · exact h.reportBranch pass view none _ pi
  · exact h.flushTurn hview _

theorem Tracked.afterOwnedReport {c : Coordinator} (h : Tracked c) {pass : SuspendedPass}
    {view : SessionView} (hview : c.views[pass.view]? = some view) (pi : PiState) :
    Tracked (c.afterOwnedReport pass view pi) := by
  rw [Coordinator.afterOwnedReport]
  split
  · exact h.flushTurn hview _
  · exact h.afterFirstFlush hview pi

/-- A turn is taken over only where none is owned, as one that runs and is reported. -/
theorem adoptedTurn_spec {c : Coordinator} {view : SessionView} {pi : PiState} {turn : OwnedTurn}
    (h : c.adoptedTurn view pi = some turn) :
    c.turn = none ∧ turn.phase = .running ∧ turn.startedReported = true := by
  rw [adoptedTurn] at h
  split at h
  · cases h
  · next hfree =>
      obtain ⟨candidate, -, h⟩ := Option.bind_eq_some_iff.1 h
      obtain ⟨opened, -, h⟩ := Option.bind_eq_some_iff.1 h
      split at h
      · cases h
        exact ⟨by simpa using (not_or.1 hfree).1, rfl, rfl⟩
      · cases h

theorem Tracked.takeOver {c : Coordinator} (h : Tracked c) (view : SessionView) (pi : PiState) :
    Tracked (c.takeOver view pi) := by
  rw [Coordinator.takeOver]
  cases hadopted : c.adoptedTurn view pi with
  | none => exact h
  | some turn =>
      obtain ⟨hnone, hphase, hstarted⟩ := adoptedTurn_spec hadopted
      refine h.own hnone ⟨fun stopReason entry hsettled => ?_, fun hnot => ?_⟩
      · rw [hphase] at hsettled
        cases hsettled
      · rw [hstarted] at hnot
        cases hnot

theorem views_takeOver (c : Coordinator) (view : SessionView) (pi : PiState) :
    (c.takeOver view pi).views = c.views := by
  rw [Coordinator.takeOver]
  split <;> rfl

theorem Tracked.afterPrepared {c : Coordinator} (h : Tracked c) {pass : SuspendedPass}
    {view : SessionView} (hview : c.views[pass.view]? = some view) (pi : PiDuring) :
    Tracked (c.afterPrepared pass view pi) := by
  have haborted := (h.takeOver view pi.start).abort pi.start.isIdle pi.onAbort
  have hsame : ((c.takeOver view pi.start).abortCancelledTurn pi.start.isIdle pi.onAbort).views =
      c.views := (views_abort _ _ _).trans (views_takeOver c view pi.start)
  rw [Coordinator.afterPrepared]
  split
  · exact haborted.reportBranch _ view _ _ _
  · refine haborted.afterOwnedReport ?_ _
    rw [hsame]
    exact hview

theorem Tracked.send {c : Coordinator} (h : Tracked c) (hnone : c.turn = none)
    (pass : SuspendedPass) (view : SessionView) (message : SessionMessage) (pi : PiDuring) :
    Tracked (c.send pass view message pi) := by
  rw [Coordinator.send]
  dsimp only
  generalize howned : (if message.triggerTurn = true then c.own _ else c) = owned
  have htracked : Tracked owned := by
    rw [← howned]
    split
    · exact h.own hnone ⟨fun stopReason entry hphase => (by cases hphase),
        fun _ hentry => (by cases hentry)⟩
    · exact h
  have hsent : Tracked (owned.note (.sent pass.view message.workflowMessageId)) :=
    htracked.note trivial fun _ => rfl
  have hcalled := hsent.piCalls pi.onSend
  generalize pi.onSend.foldl Coordinator.piCall _ = called at hcalled ⊢
  split
  · exact hcalled.reportBranch pass view none _ _
  · have hundone : Tracked { called with
        queued := called.queued.filter (· ≠ message.workflowMessageId) } :=
      hcalled.of_eq rfl rfl rfl rfl
    split
    · refine Tracked.of_eq (hundone.dropTurn fun hended => ?_) rfl rfl rfl rfl
      cases hended
    · exact hundone.of_eq rfl rfl rfl rfl

theorem Tracked.deliver {c : Coordinator} (h : Tracked c) {pass : SuspendedPass}
    {view : SessionView} {pi : PiState}
    (hfree : ∀ message, c.deliverable view pi = some message → c.turn = none) (during : PiDuring) :
    Tracked (c.deliver pass view pi during) := by
  rw [Coordinator.deliver]
  cases hdeliverable : c.deliverable view pi with
  | none => exact h.of_eq rfl rfl rfl rfl
  | some message =>
      have hnone := hfree message hdeliverable
      have hqueued : Tracked { c with queued := c.queued ++ [message.workflowMessageId] } :=
        h.of_eq rfl rfl rfl rfl
      dsimp only
      split
      · exact hqueued.reportBranch pass view none _ pi
      · split
        · exact hqueued.send hnone pass view message during
        · exact h.of_eq rfl rfl rfl rfl

theorem Tracked.afterFlush {c : Coordinator} (h : Tracked c) {pass : SuspendedPass}
    {view : SessionView} (hview : c.views[pass.view]? = some view) (pi : PiDuring) :
    Tracked (c.afterFlush pass view pi) := by
  have haborted := h.abort pi.start.isIdle pi.onAbort
  have hsame := views_abort c pi.start.isIdle pi.onAbort
  rw [Coordinator.afterFlush]
  split
  · exact haborted.of_eq rfl rfl rfl rfl
  · next hgo =>
      split
      · next current hterminal =>
          refine haborted.suspend ⟨view, current, ?_, ?_⟩
          · rw [hsame]
            exact hview
          · obtain ⟨hcurrent, hchecks⟩ := Option.filter_eq_some_iff.1 hterminal
            simp only [Bool.and_eq_true, decide_eq_true_eq] at hchecks
            exact ⟨hcurrent, hchecks.1.1.2⟩
      · refine haborted.deliver (fun _ _ => ?_) pi
        simpa using (not_or.1 hgo).1

theorem Tracked.continueAt {c : Coordinator} (h : Tracked c) {pass : SuspendedPass}
    {view : SessionView} (hview : c.views[pass.view]? = some view) (pi : PiDuring)
    (stage : PassStage) : Tracked (c.continueAt pass view pi stage) := by
  cases stage with
  | prepared => exact h.afterPrepared hview pi
  | ownedReported => exact h.afterOwnedReport hview pi.start
  | firstFlushed => exact h.afterFirstFlush hview pi.start
  | branchReported => exact h.flushTurn hview _
  | flushed => exact h.afterFlush hview pi
  | existingReported => exact h.of_eq rfl rfl rfl rfl
  | sentReported => exact h.flushTurn hview _
  | lastFlushed => exact (h.abort pi.start.isIdle pi.onAbort).of_eq rfl rfl rfl rfl

theorem Tracked.answered {c next : Coordinator} (h : Tracked c) {pass : SuspendedPass}
    (hpass : PassTracked c.log c.views pass) {view : SessionView}
    (hview : c.views[pass.view]? = some view) {pi : PiDuring} {reply : Reply}
    (hnext : Answered c pass view pi pass.await reply next)
    (hown : ∀ receipt workflowTurnId message stopReason responseSessionEntryId next,
      reply = .receipt receipt →
      pass.await = .endReport workflowTurnId message stopReason responseSessionEntryId next →
      receipt.isValid view message workflowTurnId = true →
      ∀ turn, c.turn = some turn → turn.workflowTurnId = workflowTurnId) : Tracked next := by
  generalize hawait : pass.await = await at hnext
  cases hnext with
  | failed => exact h.of_eq rfl rfl rfl rfl
  | resumed stage => exact h.continueAt hview pi stage
  | hydrated message =>
      refine Tracked.suspend ?_ trivial
      exact h.of_eq rfl rfl rfl rfl
  | branchReported reported owned entry next =>
      exact h.branchReported pass view reported owned entry next
  | startAnswered workflowTurnId message next receipt =>
      exact h.startAnswered pass workflowTurnId message next receipt
  | beforeTurnEnd workflowTurnId message stopReason responseSessionEntryId next =>
      rw [PassTracked, hawait] at hpass
      refine Tracked.suspend (h.note ?_ fun _ => rfl) trivial
      exact hpass
  | endAnswered workflowTurnId message stopReason responseSessionEntryId next receipt hvalid =>
      exact h.endAnswered (hown receipt workflowTurnId message stopReason responseSessionEntryId next
        rfl hawait hvalid) pass message next
  | terminalDelivered message =>
      rw [PassTracked, hawait] at hpass
      obtain ⟨shown, current, hshown, hcurrent, hsent⟩ := hpass
      obtain rfl := Option.some.inj (hshown.symm.trans hview)
      have hannounced : Tracked { c with
          finalizedTerminals := c.finalizedTerminals ++ [message.workflowMessageId] } :=
        h.of_eq rfl rfl rfl rfl
      refine hannounced.deliver (fun candidate hcandidate => ?_) pi
      -- A message that is sent is not delivered again.
      obtain ⟨hmessage, hchecks⟩ := Option.filter_eq_some_iff.1 hcandidate
      obtain rfl := Option.some.inj (hcurrent.symm.trans hmessage)
      simp [hsent] at hchecks

theorem Tracked.resume {c : Coordinator} (h : Tracked c) {index : Nat} {reply : Reply}
    {pi : PiDuring} (hfits : c.DropsOwn (.resume index reply pi)) :
    Tracked (c.resume index reply pi) := by
  obtain heq | ⟨pass, view, hpass, hview, hnext⟩ := resume_cases c index reply pi
  · rwa [heq]
  · have htaken : Tracked { c with passes := c.passes.eraseIdx index } :=
      ⟨h.kept, h.owner, h.turn, h.views, fun p hp => h.passes p (List.mem_of_mem_eraseIdx hp)⟩
    refine htaken.answered (h.passes pass (List.mem_of_getElem? hpass)) hview hnext ?_
    rintro receipt workflowTurnId message stopReason entry next rfl hawait hvalid
    exact hfits pass view workflowTurnId message stopReason entry next hpass hview hawait hvalid

theorem stopIfCancelled_id (message : Option SessionMessage) (turn : OwnedTurn) :
    (stopIfCancelled message turn).workflowTurnId = turn.workflowTurnId := by
  unfold stopIfCancelled
  split
  · rfl
  · split <;> rfl

theorem TurnTracked.stopIfCancelled {log : List CoordinatorEvent} {turn : OwnedTurn}
    (h : TurnTracked log turn) (message : Option SessionMessage) :
    TurnTracked log (stopIfCancelled message turn) := by
  unfold Coordinator.stopIfCancelled
  split
  · exact h
  · split
    · exact ⟨h.settled, h.entry⟩
    · exact h

theorem Tracked.updateView {c : Coordinator} (h : Tracked c) (view : SessionView) :
    Tracked (c.updateView view) := by
  have hnoted : Tracked (c.note (.viewed c.views.length view)) := h.note trivial fun _ => rfl
  have hmapped := hnoted.mapTurn (stopIfCancelled_id view.workflowMessage)
    fun turn hturn => hturn.stopIfCancelled view.workflowMessage
  refine ⟨hmapped.kept, hmapped.owner, hmapped.turn, fun v shown hshown => ?_, fun pass hpass => ?_⟩
  · have hcases : (c.views ++ [view])[v]? = some shown := hshown
    rw [List.getElem?_append] at hcases
    split at hcases
    · exact hnoted.views v shown hcases
    · next hlength =>
        obtain ⟨hv, rfl⟩ : v = c.views.length ∧ view = shown := by
          rw [List.getElem?_singleton] at hcases
          split at hcases
          · next hzero => exact ⟨by omega, Option.some.inj hcases⟩
          · cases hcases
        intro message hmessage hsent
        refine .inl ⟨view, message, ?_, ?_, hsent⟩
        · rw [hv]
          exact List.mem_append_right _ List.mem_cons_self
        · rw [SessionView.messageById, hmessage]
          simp
  · have hold := hnoted.passes pass hpass
    rw [PassTracked] at hold ⊢
    split
    · next heq =>
        rw [heq] at hold
        exact hold
    · next heq =>
        rw [heq] at hold
        obtain ⟨shown, message, hget, hmessage, hsent⟩ := hold
        refine ⟨shown, message, ?_, hmessage, hsent⟩
        exact (List.getElem?_append_left (List.getElem?_eq_some_iff.1 hget).1).trans hget
    · trivial

theorem Tracked.clear {c : Coordinator} (h : Tracked c) : Tracked c.clear := by
  have hdropped : Tracked (Coordinator.dropTurn .cleared c) :=
    h.dropTurn fun hended => by cases hended
  rw [Coordinator.clear]
  refine Tracked.note ?_ trivial fun _ => rfl
  exact hdropped.of_eq rfl rfl rfl rfl

theorem Tracked.synchronize {c : Coordinator} (h : Tracked c) (pi : PiDuring) :
    Tracked (c.synchronize pi) := by
  have haborted := h.abort pi.start.isIdle pi.onAbort
  rw [Coordinator.synchronize]
  generalize c.abortCancelledTurn pi.start.isIdle pi.onAbort = aborted at haborted ⊢
  split
  · exact haborted
  · split
    · split
      · rw [prepareContent]
        split
        · refine Tracked.suspend ?_ trivial
          exact haborted.of_eq rfl rfl rfl rfl
        · split
          all_goals
            refine Tracked.suspend ?_ trivial
            exact haborted.of_eq rfl rfl rfl rfl
      · exact haborted
    · exact haborted

/-- A step that drops no other turn keeps what is known of the log. -/
theorem Tracked.act {c : Coordinator} (h : Tracked c) {action : Action}
    (hfits : c.DropsOwn action) : Tracked (c.act action) := by
  cases action with
  | updateView view => exact h.updateView view
  | branchChanged => exact h.of_eq rfl rfl rfl rfl
  | pi call => exact h.piCall call
  | fence =>
      refine Tracked.note ?_ trivial fun _ => rfl
      exact h.of_eq rfl rfl rfl rfl
  | clear => exact h.clear
  | abortCancelledTurn pi => exact h.abort _ _
  | synchronize pi => exact h.synchronize pi
  | resume index reply pi => exact h.resume hfits

theorem Tracked.initial : Tracked Coordinator.initial where
  kept before event after h := by simp [Coordinator.initial] at h
  owner := rfl
  turn turn h := by cases h
  views v view h := by simp [Coordinator.initial] at h
  passes pass h := by simp [Coordinator.initial] at h

/-- Where no reply to the report of an end finds another turn, turns are kept. -/
theorem acts_turnsKept {actions : List Action}
    (h : Trace.Fits act DropsOwn Coordinator.initial actions) : TurnsKept (acts actions).log :=
  (h.invariant Tracked (fun _ _ hc hfits => hc.act hfits) .initial).kept

/-! ## Two passes -/

/-- The message once its entry was reported. -/
def reportedMessage : SessionMessage :=
  { waitingMessage with status := .sent, piSessionEntryId := some "entry" }

/-- Pi with the message in its session. -/
def deliveredPi : PiState :=
  { idlePi with branch := [.custom (some "entry") (some "message")] }

/-- Pi, which runs the turn of a message while it takes it. -/
def answeringPi : PiDuring :=
  { quietPi with
    onSend := [.startTurn, .endTurn .completed (some "response")]
    afterSend := deliveredPi }

def startedTurn : WorkflowTurn where
  workflowTurnId := "turn"
  workflowMessageId := "message"
  runId := "run"
  targetSessionId := "session"
  state := .started
  stopReason := none
  responseSessionEntryId := none
  startedAt := 0
  endedAt := none

def endedTurn : WorkflowTurn :=
  { startedTurn with
    state := .ended
    stopReason := some .completed
    responseSessionEntryId := some "response"
    endedAt := some 1 }

/-- A pass that waits for the receipt of the end of its turn. -/
def settledActions : List Action :=
  flushedActions ++
    [.resume 0 .resumed answeringPi, .resume 0 .accepted quietPi, .resume 0 .resumed quietPi,
      .resume 0 (.receipt ⟨.active, some startedTurn⟩) quietPi, .resume 0 .resumed quietPi]

/-- The next message of the session. -/
def nextMessage : SessionMessage :=
  { waitingMessage with workflowMessageId := "next" }

def nextView : SessionView :=
  { waitingView with workflowMessage := some nextMessage }

def nextPi : PiDuring :=
  { quietPi with freshTurnId := "next-turn" }

/-- A new pass sends the next message beside the suspended one. -/
def nextActions : List Action :=
  [.clear, .updateView nextView, .synchronize nextPi, .resume 1 (.hydrated true) nextPi,
    .resume 1 .resumed nextPi, .resume 1 .accepted nextPi, .resume 1 .resumed nextPi,
    .resume 1 .resumed nextPi]

/-- A turn that is sent, runs, ends and is reported. -/
theorem settledTurn_kept :
    TurnsKept (acts (settledActions ++
      [.resume 0 (.receipt ⟨.settled, some endedTurn⟩) quietPi])).log := by
  refine acts_turnsKept ?_
  refine Trace.fits_cons.2 ⟨trivial, Trace.fits_cons.2 ⟨trivial, Trace.fits_cons.2 ⟨trivial, ?_⟩⟩⟩
  refine Trace.fits_cons.2 ⟨trivial, Trace.fits_cons.2 ⟨trivial, Trace.fits_cons.2 ⟨trivial, ?_⟩⟩⟩
  refine Trace.fits_cons.2 ⟨trivial, Trace.fits_cons.2 ⟨trivial, Trace.fits_cons.2 ⟨trivial, ?_⟩⟩⟩
  refine Trace.fits_cons.2 ⟨?_, Trace.fits_cons.2 ⟨trivial, Trace.fits_cons.2 ⟨?_, Trace.fits_nil⟩⟩⟩
  · -- The first receipt answers the report of a start.
    intro pass view workflowTurnId message stopReason entry next hpass _ hawait
    have hreporting : some (SuspendedPass.mk 0 []
      (.startReport "turn" reportedMessage .lastFlushed)) = some pass := hpass
    obtain rfl := Option.some.inj hreporting
    cases hawait
  · intro pass view workflowTurnId message stopReason entry next hpass _ hawait _ turn hturn
    have hreporting : some (SuspendedPass.mk 0 [] (.endReport "turn" reportedMessage
      .completed (some "response") .lastFlushed)) = some pass := hpass
    obtain rfl := Option.some.inj hreporting
    cases hawait
    cases hturn
    rfl

/-- The receipt of the old turn drops the new one. -/
theorem turn_overtaken : ¬ ∀ actions, TurnsKept (acts actions).log := by
  intro h
  have hlog : (acts (settledActions ++ nextActions ++
      [.resume 0 (.receipt ⟨.settled, some endedTurn⟩) quietPi])).log =
        [.viewed 0 waitingView, .owned "turn", .sent 0 "message",
          .settled "turn" .completed (some "response"), .entryReported "message",
          .startReported 0 "turn" "message", .endReported "turn" .completed (some "response"),
          .dropped "turn" .cleared, .cleared, .viewed 1 nextView, .owned "next-turn",
          .sent 1 "next", .endAccepted "turn"] ++ .dropped "next-turn" .ended :: [] := rfl
  obtain ⟨-, haccepted⟩ := h _ _ _ _ hlog
  simp at haccepted

end Coordinator

end PiWorkflows
