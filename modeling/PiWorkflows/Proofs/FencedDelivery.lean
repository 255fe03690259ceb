import PiWorkflows.Extension.MessageCoordinator

/-!
# What a fence keeps from Pi

`fence` takes the authority of the last view away until another one comes. A pass tests
that when it begins and not again, so one that was suspended before still takes over a
turn or sends its message. Those are the two stretches that do (`delivers`): every other
one leaves the authority as it is and gives Pi nothing (`Quiet`). A send is also tied to
the view of its pass, which is no longer the current one after `clear`.
-/

namespace PiWorkflows

namespace CoordinatorEvent

/-- Pi gets a message, or a turn gets an owner. -/
def Delivers : CoordinatorEvent → Prop
  | .owned _ | .sent _ _ => True
  | _ => False

/-- The authority of the views stays as it is. -/
def KeepsAuthority : CoordinatorEvent → Prop
  | .viewed _ _ | .fenced | .cleared => False
  | _ => True

/-- Neither. -/
def IsQuiet (event : CoordinatorEvent) : Prop :=
  event.KeepsAuthority ∧ ¬ event.Delivers

end CoordinatorEvent

/-- Whether the last view was fenced, one event later. -/
def fencedNext (isFenced : Bool) : CoordinatorEvent → Bool
  | .fenced => true
  | .viewed _ _ | .cleared => false
  | _ => isFenced

def fencedAfter (log : List CoordinatorEvent) : Bool :=
  log.foldl fencedNext false

/-- Nothing is sent and no turn gets an owner between a fence and the next view or clear, and
what is sent after a clear is from a view that came after it. -/
structure FenceHeld (log : List CoordinatorEvent) : Prop where
  fenced : ∀ before event after, log = before ++ event :: after → event.Delivers →
    fencedAfter before = false
  cleared : ∀ before mid v messageId after,
    log = before ++ .cleared :: (mid ++ .sent v messageId :: after) →
      ∃ view, CoordinatorEvent.viewed v view ∈ mid

namespace Coordinator

/-- What a suspended pass comes to: the state in which the reply leaves it. -/
inductive Answered (c : Coordinator) (pass : SuspendedPass) (view : SessionView) (pi : PiDuring) :
    Await → Reply → Coordinator → Prop where
  | failed {await : Await} {reply : Reply} : Answered c pass view pi await reply c.finish
  | resumed (stage : PassStage) :
      Answered c pass view pi (.resumption stage) .resumed (c.continueAt pass view pi stage)
  | hydrated (message : SessionMessage) :
      Answered c pass view pi (.hydration message) (.hydrated true)
        (({ c with content := some ⟨message.workflowMessageId, message.contentDigest⟩ }).suspend
          { pass with await := .resumption .prepared })
  | branchReported (reported : Option SessionMessage) (owned : Bool) (entry : Option String)
      (next : PassStage) :
      Answered c pass view pi (.branchReport reported owned entry next) .accepted
        (c.branchReported pass view reported owned entry next)
  | startAnswered (workflowTurnId : String) (message : SessionMessage) (next : PassStage)
      (receipt : TurnReceipt) :
      Answered c pass view pi (.startReport workflowTurnId message next) (.receipt receipt)
        (c.startAnswered pass workflowTurnId message next receipt)
  | beforeTurnEnd (workflowTurnId : String) (message : SessionMessage)
      (stopReason : WorkflowTurnStopReason) (responseSessionEntryId : Option String)
      (next : PassStage) :
      Answered c pass view pi
        (.beforeTurnEnd workflowTurnId message stopReason responseSessionEntryId next) .resumed
        (c.reportEnd pass workflowTurnId message stopReason responseSessionEntryId next)
  | endAnswered (workflowTurnId : String) (message : SessionMessage)
      (stopReason : WorkflowTurnStopReason) (responseSessionEntryId : Option String)
      (next : PassStage) (receipt : TurnReceipt)
      (hvalid : receipt.isValid view message workflowTurnId = true) :
      Answered c pass view pi
        (.endReport workflowTurnId message stopReason responseSessionEntryId next)
        (.receipt receipt) (c.endAnswered pass workflowTurnId message next)
  | terminalDelivered (message : SessionMessage) :
      Answered c pass view pi (.terminalDelivered message) .resumed
        (({ c with
          finalizedTerminals := c.finalizedTerminals ++ [message.workflowMessageId] }).deliver pass
            view pi.start pi)

theorem answered_of_answer {c next : Coordinator} {pass : SuspendedPass} {view : SessionView}
    {pi : PiDuring} {await : Await} {reply : Reply}
    (h : c.answer pass view pi await reply = some next) :
    Answered c pass view pi await reply next := by
  cases reply with
  | failed =>
      cases await <;> cases h
      all_goals exact .failed
  | resumed =>
      cases await <;> cases h
      · exact .resumed _
      · exact .beforeTurnEnd _ _ _ _ _
      · exact .terminalDelivered _
  | hydrated isVerified =>
      cases await with
      | hydration message =>
          cases isVerified <;> cases h
          · exact .failed
          · exact .hydrated message
      | _ => cases h
  | accepted =>
      cases await <;> cases h
      exact .branchReported _ _ _ _
  | receipt receipt =>
      cases await with
      | startReport workflowTurnId message next =>
          rw [answer] at h
          split at h <;> cases h
          · exact .startAnswered workflowTurnId message next receipt
          · exact .failed
      | endReport workflowTurnId message stopReason responseSessionEntryId next =>
          rw [answer] at h
          split at h <;> cases h
          · next hvalid =>
              exact .endAnswered workflowTurnId message stopReason responseSessionEntryId next
                receipt hvalid
          · exact .failed
      | _ => cases h

/-- What a resumption can do: nothing, or let one suspended pass go on. -/
theorem resume_cases (c : Coordinator) (index : Nat) (reply : Reply) (pi : PiDuring) :
    c.resume index reply pi = c ∨
      ∃ pass view, c.passes[index]? = some pass ∧ c.views[pass.view]? = some view ∧
        Answered { c with passes := c.passes.eraseIdx index } pass view pi pass.await
          reply (c.resume index reply pi) := by
  unfold resume
  cases hpass : c.passes[index]? with
  | none => exact .inl rfl
  | some pass =>
      dsimp only
      cases hview : c.views[pass.view]? with
      | none => exact .inl rfl
      | some view =>
          dsimp only
          cases hanswer : answer { c with passes := c.passes.eraseIdx index } pass view pi
            pass.await reply with
          | none => exact .inl rfl
          | some next => exact .inr ⟨pass, view, rfl, hview, answered_of_answer hanswer⟩

/-! ## The stretches that deliver -/

/-- Whether the stretch behind the second flush, or behind the handling of a terminal message,
comes to `sendMessage`. -/
def sends (c : Coordinator) (pass : SuspendedPass) (view : SessionView) (pi : PiState) : Bool :=
  c.maySend pass view && (c.deliverable view pi).any fun message =>
    (pi.entryOf message.workflowMessageId).isNone

/-- Whether a pass that goes on takes a turn over or sends a message. -/
def delivers (c : Coordinator) (pass : SuspendedPass) (view : SessionView) (pi : PiDuring) : Bool :=
  match pass.await with
  | .resumption .prepared => (c.adoptedTurn view pi.start).isSome
  | .resumption .flushed => c.turn.isNone && c.sends pass view pi.afterAbort
  | .terminalDelivered _ => c.sends pass view pi.start
  | _ => false

/-- While the view is fenced, no pass is resumed that would deliver. -/
def HeedsFence (c : Coordinator) : Action → Prop
  | .resume index _ pi => c.fenced = true → ∀ pass view, c.passes[index]? = some pass →
      c.views[pass.view]? = some view → c.delivers pass view pi = false
  | _ => True

/-! ## Quiet stretches -/

/-- The authority stays as it is and nothing is delivered. -/
structure Quiet (c c' : Coordinator) : Prop where
  log : ∃ new, c'.log = c.log ++ new ∧
    ∀ event ∈ new, event.IsQuiet
  fenced : c'.fenced = c.fenced
  view : c'.view = c.view

theorem Quiet.refl (c : Coordinator) : Quiet c c :=
  ⟨⟨[], by simp, by simp⟩, rfl, rfl⟩

theorem Quiet.trans {a b c : Coordinator} (h : Quiet a b) (h' : Quiet b c) : Quiet a c := by
  obtain ⟨new, hlog, hnew⟩ := h.log
  obtain ⟨new', hlog', hnew'⟩ := h'.log
  refine ⟨⟨new ++ new', by rw [hlog', hlog, List.append_assoc], ?_⟩, h'.fenced.trans h.fenced,
    h'.view.trans h.view⟩
  intro event hevent
  rcases List.mem_append.1 hevent with hevent | hevent
  · exact hnew event hevent
  · exact hnew' event hevent

/-- Nothing is logged. -/
theorem Quiet.of_log {c c' : Coordinator} (hlog : c'.log = c.log) (hfenced : c'.fenced = c.fenced)
    (hview : c'.view = c.view) : Quiet c c' :=
  ⟨⟨[], by rw [hlog, List.append_nil], by simp⟩, hfenced, hview⟩

theorem Quiet.note {c c' : Coordinator} (h : Quiet c c') {event : CoordinatorEvent}
    (hevent : event.IsQuiet) : Quiet c (c'.note event) := by
  refine h.trans ⟨⟨[event], rfl, fun e he => ?_⟩, rfl, rfl⟩
  rw [List.mem_singleton.1 he]
  exact hevent

theorem Quiet.suspend {c c' : Coordinator} (h : Quiet c c') (pass : SuspendedPass) :
    Quiet c (c'.suspend pass) :=
  ⟨h.log, h.fenced, h.view⟩

theorem quiet_piCall (c : Coordinator) (call : PiCall) : Quiet c (c.piCall call) := by
  cases call with
  | startTurn => exact .of_log rfl rfl rfl
  | endTurn stopReason responseSessionEntryId =>
      rw [piCall]
      split
      · exact .refl c
      · split
        · refine Quiet.note ?_ ⟨trivial, id⟩
          exact .of_log rfl rfl rfl
        · exact .refl c

theorem quiet_piCalls (c : Coordinator) (calls : List PiCall) :
    Quiet c (calls.foldl piCall c) := by
  induction calls generalizing c with
  | nil => exact .refl c
  | cons call calls ih => exact (quiet_piCall c call).trans (ih _)

theorem quiet_abort (c : Coordinator) (isIdle : Bool) (onAbort : List PiCall) :
    Quiet c (c.abortCancelledTurn isIdle onAbort) := by
  rw [abortCancelledTurn]
  split
  · refine Quiet.trans ?_ (quiet_piCalls _ onAbort)
    exact .of_log rfl rfl rfl
  · exact .refl c

theorem quiet_dropTurn (c : Coordinator) (cause : DropCause) : Quiet c (dropTurn cause c) := by
  rw [dropTurn]
  split
  · exact .refl c
  · refine Quiet.note ?_ ⟨trivial, id⟩
    exact .of_log rfl rfl rfl

theorem quiet_flushEnd (c : Coordinator) (pass : SuspendedPass) (pending : OwnedTurn)
    (message : SessionMessage) (next : PassStage) :
    Quiet c (c.flushEnd pass pending message next) := by
  rw [flushEnd]
  split
  · split
    · exact ((Quiet.refl c).note (by exact ⟨trivial, id⟩)).suspend _
    · exact (Quiet.refl c).suspend _
  · exact (Quiet.refl c).suspend _

theorem quiet_reportStart (c : Coordinator) (pass : SuspendedPass) (pending : OwnedTurn)
    (message : SessionMessage) (next : PassStage) :
    Quiet c (c.reportStart pass pending message next) :=
  ((Quiet.refl c).note (by exact ⟨trivial, id⟩)).suspend _

theorem quiet_flushTurn (c : Coordinator) (pass : SuspendedPass) (view : SessionView)
    (next : PassStage) : Quiet c (c.flushTurn pass view next) := by
  have hdone : Quiet c (c.suspend { pass with await := .resumption next }) :=
    (Quiet.refl c).suspend _
  rw [flushTurn]
  split
  · exact hdone
  · split
    · exact hdone
    · split
      · exact quiet_flushEnd c pass _ _ next
      · split
        · split
          · exact quiet_reportStart c pass _ _ next
          · exact hdone
        · split
          · exact quiet_reportStart c pass _ _ next
          · exact hdone

theorem quiet_reportBranch (c : Coordinator) (pass : SuspendedPass) (view : SessionView)
    (ownedDelivery : Option SessionMessage) (next : PassStage) (pi : PiState) :
    Quiet c (c.reportBranch pass view ownedDelivery next pi) := by
  rw [reportBranch]
  split <;> exact (Quiet.refl c).suspend _

theorem quiet_confirmEntry (c : Coordinator) (v : Nat) (reported : Option SessionMessage)
    (owned : Bool) (entry : Option String) : Quiet c (c.confirmEntry v reported owned entry) := by
  cases reported with
  | none => exact .refl c
  | some message =>
      cases entry with
      | none => exact .refl c
      | some entry =>
          have hnoted : Quiet c (c.note (.entryReported message.workflowMessageId)) :=
            (Quiet.refl c).note ⟨trivial, id⟩
          cases owned <;> exact hnoted.trans (.of_log rfl rfl rfl)

theorem quiet_branchReported (c : Coordinator) (pass : SuspendedPass) (view : SessionView)
    (reported : Option SessionMessage) (owned : Bool) (entry : Option String) (next : PassStage) :
    Quiet c (c.branchReported pass view reported owned entry next) := by
  refine (quiet_confirmEntry c pass.view reported owned entry).trans ?_
  cases owned <;> exact .of_log rfl rfl rfl

theorem quiet_startAnswered (c : Coordinator) (pass : SuspendedPass) (workflowTurnId : String)
    (message : SessionMessage) (next : PassStage) (receipt : TurnReceipt) :
    Quiet c (c.startAnswered pass workflowTurnId message next receipt) := by
  rw [startAnswered]
  split
  · exact (Quiet.refl c).suspend _
  · split
    · exact (Quiet.refl c).suspend _
    · split
      · refine Quiet.trans ?_ (quiet_flushEnd _ pass _ message next)
        exact .of_log rfl rfl rfl
      · exact .of_log rfl rfl rfl

theorem quiet_closeIn (workflowTurnId : String) (c : Coordinator) (vs : List Nat) :
    Quiet c (vs.foldl (closeIn workflowTurnId) c) := by
  induction vs generalizing c with
  | nil => exact .refl c
  | cons v vs ih =>
      refine Quiet.trans ?_ (ih (closeIn workflowTurnId c v))
      exact .of_log rfl rfl rfl

theorem quiet_endAnswered (c : Coordinator) (pass : SuspendedPass) (workflowTurnId : String)
    (message : SessionMessage) (next : PassStage) :
    Quiet c (c.endAnswered pass workflowTurnId message next) := by
  have haccepted : Quiet c (c.note (.endAccepted workflowTurnId)) :=
    (Quiet.refl c).note (by exact ⟨trivial, id⟩)
  rw [endAnswered]
  refine (haccepted.trans (Quiet.trans ?_ (quiet_dropTurn _ .ended))).suspend _
  refine Quiet.trans ?_ (quiet_closeIn workflowTurnId _ _)
  split
  · exact .of_log rfl rfl rfl
  · exact .refl _

theorem quiet_afterFirstFlush (c : Coordinator) (pass : SuspendedPass) (view : SessionView)
    (pi : PiState) : Quiet c (c.afterFirstFlush pass view pi) := by
  rw [afterFirstFlush]
  split
  · exact quiet_reportBranch c pass view none _ pi
  · exact quiet_flushTurn c pass view _

theorem quiet_afterOwnedReport (c : Coordinator) (pass : SuspendedPass) (view : SessionView)
    (pi : PiState) : Quiet c (c.afterOwnedReport pass view pi) := by
  rw [afterOwnedReport]
  split
  · exact quiet_flushTurn c pass view _
  · exact quiet_afterFirstFlush c pass view pi

theorem quiet_prepareContent (c : Coordinator) (v : Nat) (view : SessionView) :
    Quiet c (c.prepareContent v view) := by
  rw [prepareContent]
  split
  · exact .of_log rfl rfl rfl
  · split <;> exact .of_log rfl rfl rfl

theorem quiet_synchronize (c : Coordinator) (pi : PiDuring) : Quiet c (c.synchronize pi) := by
  rw [synchronize]
  refine (quiet_abort c pi.start.isIdle pi.onAbort).trans ?_
  generalize c.abortCancelledTurn pi.start.isIdle pi.onAbort = aborted
  split
  · exact .refl _
  · split
    · split
      · refine Quiet.trans ?_ (quiet_prepareContent _ _ _)
        exact .of_log rfl rfl rfl
      · exact .refl _
    · exact .refl _

/-- The stretch behind `prepareContent`, from the turn that is taken over on. -/
theorem quiet_afterPrepared (c : Coordinator) (pass : SuspendedPass) (view : SessionView)
    (pi : PiDuring) :
    Quiet (c.takeOver view pi.start) (c.afterPrepared pass view pi) := by
  rw [afterPrepared]
  refine (quiet_abort _ pi.start.isIdle pi.onAbort).trans ?_
  split
  · exact quiet_reportBranch _ _ view _ _ _
  · exact quiet_afterOwnedReport _ _ view _

/-! ## What the state knows of the log -/

/-- The flag is what the log says, and the current view came after the last clear. -/
structure Guarded (c : Coordinator) : Prop where
  held : FenceHeld c.log
  fenced : fencedAfter c.log = c.fenced
  view : ∀ v, c.view = some v → ∀ before mid, c.log = before ++ .cleared :: mid →
    ∃ view, CoordinatorEvent.viewed v view ∈ mid

theorem Guarded.of_eq {c c' : Coordinator} (h : Guarded c) (hlog : c'.log = c.log)
    (hfenced : c'.fenced = c.fenced) (hview : c'.view = c.view) : Guarded c' :=
  ⟨hlog ▸ h.held, by rw [hlog, hfenced]; exact h.fenced, by rw [hlog, hview]; exact h.view⟩

theorem append_eq_split {α : Type} {log before after : List α} {last event : α}
    (h : log ++ [last] = before ++ event :: after) :
    (after = [] ∧ before = log ∧ event = last) ∨
      ∃ after', after = after' ++ [last] ∧ log = before ++ event :: after' := by
  rcases List.eq_nil_or_concat after with rfl | ⟨after', x, rfl⟩
  · obtain ⟨hlog, hlast⟩ := List.append_inj' h rfl
    exact .inl ⟨rfl, hlog.symm, (List.cons.inj hlast).1.symm⟩
  · rw [List.concat_eq_append] at h ⊢
    have hsplit : before ++ event :: (after' ++ [x]) = (before ++ event :: after') ++ [x] := by simp
    rw [hsplit] at h
    obtain ⟨hlog, hlast⟩ := List.append_inj' h rfl
    exact .inr ⟨after', by rw [(List.cons.inj hlast).1], hlog⟩

/-- One more event keeps the log in order, if the state bears it out. -/
theorem FenceHeld.concat {c : Coordinator} (h : Guarded c) {event : CoordinatorEvent}
    (hdelivers : event.Delivers → c.fenced = false)
    (hsent : ∀ v messageId, event = .sent v messageId → c.view = some v) :
    FenceHeld (c.log ++ [event]) where
  fenced before e after hlog he := by
    rcases append_eq_split hlog with ⟨-, rfl, rfl⟩ | ⟨after', -, hlog⟩
    · exact h.fenced.trans (hdelivers he)
    · exact h.held.fenced before e after' hlog he
  cleared before mid v messageId after hlog := by
    have hsplit : before ++ CoordinatorEvent.cleared :: (mid ++ .sent v messageId :: after) =
        (before ++ .cleared :: mid) ++ .sent v messageId :: after := by simp
    rw [hsplit] at hlog
    rcases append_eq_split hlog with ⟨-, hbefore, hevent⟩ | ⟨after', -, hlog⟩
    · exact h.view v (hsent v messageId hevent.symm) before mid hbefore.symm
    · refine h.held.cleared before mid v messageId after' (hlog.trans ?_)
      rw [List.append_assoc, List.cons_append]

/-- An event that leaves the authority as it is. -/
theorem Guarded.note {c : Coordinator} (h : Guarded c) {event : CoordinatorEvent}
    (hkeeps : event.KeepsAuthority) (hdelivers : event.Delivers → c.fenced = false)
    (hsent : ∀ v messageId, event = .sent v messageId → c.view = some v) :
    Guarded (c.note event) where
  held := FenceHeld.concat h hdelivers hsent
  fenced := by
    have hnext : fencedNext c.fenced event = c.fenced := by
      cases event <;> first | rfl | exact absurd hkeeps id
    show (c.log ++ [event]).foldl fencedNext false = c.fenced
    rw [List.foldl_append, List.foldl_cons, List.foldl_nil, ← fencedAfter, h.fenced, hnext]
  view v hview before mid hlog := by
    rcases append_eq_split hlog with ⟨-, -, rfl⟩ | ⟨mid', rfl, hbefore⟩
    · exact absurd hkeeps id
    · obtain ⟨view, hmem⟩ := h.view v hview before mid' hbefore
      exact ⟨view, List.mem_append_left _ hmem⟩

theorem Guarded.quiet {c c' : Coordinator} (h : Guarded c) (hquiet : Quiet c c') : Guarded c' := by
  obtain ⟨new, hlog, hnew⟩ := hquiet.log
  have hnotes : ∀ (new : List CoordinatorEvent) (c : Coordinator), Guarded c →
      (∀ event ∈ new, event.IsQuiet) →
      Guarded (new.foldl Coordinator.note c) ∧
        (new.foldl Coordinator.note c).log = c.log ++ new ∧
        (new.foldl Coordinator.note c).fenced = c.fenced ∧
        (new.foldl Coordinator.note c).view = c.view := by
    intro new
    induction new with
    | nil => exact fun c hc _ => ⟨hc, (List.append_nil _).symm, rfl, rfl⟩
    | cons event new ih =>
        intro c hc hnew
        obtain ⟨⟨hkeeps, hnot⟩, hrest⟩ := List.forall_mem_cons.1 hnew
        have hnoted := hc.note hkeeps (fun hdelivers => absurd hdelivers hnot)
          fun v messageId heq => absurd (heq ▸ trivial : event.Delivers) hnot
        obtain ⟨hguarded, hlog, hfenced, hview⟩ := ih (c.note event) hnoted hrest
        refine ⟨hguarded, ?_, hfenced, hview⟩
        rw [List.foldl_cons, hlog]
        exact List.append_assoc _ _ _
  obtain ⟨hguarded, hlog', hfenced, hview⟩ := hnotes new c h hnew
  exact hguarded.of_eq (hlog.trans hlog'.symm) (hquiet.fenced.trans hfenced.symm)
    (hquiet.view.trans hview.symm)

/-! ## Steps -/

theorem Guarded.own {c : Coordinator} (h : Guarded c) (hfenced : c.fenced = false)
    (turn : OwnedTurn) : Guarded (c.own turn) :=
  (h.of_eq rfl rfl rfl : Guarded { c with turn := some turn }).note trivial (fun _ => hfenced)
    fun _ _ heq => by cases heq

theorem Guarded.send {c : Coordinator} (h : Guarded c) (hfenced : c.fenced = false)
    {pass : SuspendedPass} (hview : c.view = some pass.view) (view : SessionView)
    (message : SessionMessage) (pi : PiDuring) : Guarded (c.send pass view message pi) := by
  rw [Coordinator.send]
  dsimp only
  generalize howned : (if message.triggerTurn = true then c.own _ else c) = owned
  have hguarded : Guarded owned ∧ owned.fenced = false ∧ owned.view = some pass.view := by
    rw [← howned]
    split
    · exact ⟨h.own hfenced _, hfenced, hview⟩
    · exact ⟨h, hfenced, hview⟩
  obtain ⟨hguarded, hfenced', hview'⟩ := hguarded
  have hsent : Guarded (owned.note (.sent pass.view message.workflowMessageId)) := by
    refine hguarded.note trivial (fun _ => hfenced') fun v messageId heq => ?_
    cases heq
    exact hview'
  refine hsent.quiet ((quiet_piCalls _ pi.onSend).trans ?_)
  split
  · exact quiet_reportBranch _ pass view none _ _
  · split
    · refine Quiet.trans ?_ (Quiet.trans (quiet_dropTurn _ .sendFailed) (.of_log rfl rfl rfl))
      exact .of_log rfl rfl rfl
    · exact .of_log rfl rfl rfl

theorem Guarded.deliver {c : Coordinator} (h : Guarded c) {pass : SuspendedPass}
    {view : SessionView} {pi : PiState} (hfenced : c.fenced = true → c.sends pass view pi = false)
    (during : PiDuring) : Guarded (c.deliver pass view pi during) := by
  rw [Coordinator.deliver]
  cases hdeliverable : c.deliverable view pi with
  | none => exact h.of_eq rfl rfl rfl
  | some message =>
      dsimp only
      split
      · refine h.quiet (Quiet.trans ?_ (quiet_reportBranch _ pass view none _ _))
        exact .of_log rfl rfl rfl
      · next hentry =>
          split
          · next hmay =>
              have hsends : c.sends pass view pi = true := by
                rw [sends, hmay, hdeliverable]
                simpa using hentry
              have hnot : c.fenced = false := by
                cases hflag : c.fenced with
                | false => rfl
                | true => cases (hfenced hflag).symm.trans hsends
              have hview : c.view = some pass.view := by
                rw [maySend, Bool.and_eq_true, Bool.and_eq_true, decide_eq_true_eq] at hmay
                exact hmay.1.1
              exact (h.of_eq rfl rfl rfl : Guarded { c with
                queued := c.queued ++ [message.workflowMessageId] }).send hnot hview view message
                  during
          · exact h.of_eq rfl rfl rfl

theorem Guarded.afterPrepared {c : Coordinator} (h : Guarded c) {pass : SuspendedPass}
    {view : SessionView} {pi : PiDuring}
    (hfenced : c.fenced = true → (c.adoptedTurn view pi.start).isSome = false) :
    Guarded (c.afterPrepared pass view pi) := by
  refine Guarded.quiet ?_ (quiet_afterPrepared c pass view pi)
  rw [takeOver]
  cases hadopted : c.adoptedTurn view pi.start with
  | none => exact h
  | some turn =>
      refine h.own ?_ turn
      cases hflag : c.fenced with
      | false => rfl
      | true =>
          rw [hadopted] at hfenced
          cases hfenced hflag

theorem isSome_piCall (c : Coordinator) (call : PiCall) :
    (c.piCall call).turn.isSome = c.turn.isSome := by
  cases call with
  | startTurn => exact Option.isSome_map
  | endTurn stopReason responseSessionEntryId =>
      rw [piCall]
      split
      · rfl
      · next turn hturn =>
          split
          · rw [hturn]
            rfl
          · rfl

/-- Aborting leaves the turn owned. -/
theorem isSome_abort (c : Coordinator) (isIdle : Bool) (onAbort : List PiCall) :
    (c.abortCancelledTurn isIdle onAbort).turn.isSome = c.turn.isSome := by
  have hcalls : ∀ (calls : List PiCall) (c : Coordinator),
      (calls.foldl piCall c).turn.isSome = c.turn.isSome := by
    intro calls
    induction calls with
    | nil => exact fun c => rfl
    | cons call calls ih => exact fun c => (ih _).trans (isSome_piCall c call)
  rw [abortCancelledTurn]
  split
  · exact (hcalls onAbort _).trans Option.isSome_map
  · rfl

theorem abort_of_none {c : Coordinator} (h : c.turn = none) (isIdle : Bool)
    (onAbort : List PiCall) : c.abortCancelledTurn isIdle onAbort = c := by
  rw [abortCancelledTurn, abortsTurn, h, Option.any_none, Bool.and_false, if_neg Bool.false_ne_true]

theorem Guarded.afterFlush {c : Coordinator} (h : Guarded c) {pass : SuspendedPass}
    {view : SessionView} {pi : PiDuring}
    (hfenced : c.fenced = true → (c.turn.isNone && c.sends pass view pi.afterAbort) = false) :
    Guarded (c.afterFlush pass view pi) := by
  have hquiet := quiet_abort c pi.start.isIdle pi.onAbort
  rw [Coordinator.afterFlush]
  split
  · exact h.quiet (hquiet.trans (.of_log rfl rfl rfl))
  · next hgo =>
      split
      · exact h.quiet (hquiet.trans (.of_log rfl rfl rfl))
      · refine (h.quiet hquiet).deliver (fun hflag => ?_) pi
        -- Without a turn there was nothing to abort, so the state is the one before.
        have hnone : c.turn = none := by
          rw [not_or, isSome_abort, Bool.not_eq_true, Option.isSome_eq_false_iff,
            Option.isNone_iff_eq_none] at hgo
          exact hgo.1
        rw [abort_of_none hnone] at hflag ⊢
        have hsends := hfenced hflag
        rwa [hnone, Option.isNone_none, Bool.true_and] at hsends

theorem Guarded.continueAt {c : Coordinator} (h : Guarded c) {pass : SuspendedPass}
    {view : SessionView} {pi : PiDuring} {stage : PassStage} (hawait : pass.await = .resumption stage)
    (hfenced : c.fenced = true → c.delivers pass view pi = false) :
    Guarded (c.continueAt pass view pi stage) := by
  rw [delivers, hawait] at hfenced
  cases stage with
  | prepared => exact h.afterPrepared hfenced
  | ownedReported => exact h.quiet (quiet_afterOwnedReport c pass view pi.start)
  | firstFlushed => exact h.quiet (quiet_afterFirstFlush c pass view pi.start)
  | branchReported => exact h.quiet (quiet_flushTurn c pass view _)
  | flushed => exact h.afterFlush hfenced
  | existingReported => exact h.of_eq rfl rfl rfl
  | sentReported => exact h.quiet (quiet_flushTurn c pass view _)
  | lastFlushed =>
      have haborted := h.quiet (quiet_abort c pi.start.isIdle pi.onAbort)
      exact haborted.of_eq rfl rfl rfl

/-- A reply keeps the log in order, if the pass does not deliver under a fence. -/
theorem Guarded.answered {c next : Coordinator} (h : Guarded c) {pass : SuspendedPass}
    {view : SessionView} {pi : PiDuring} {reply : Reply}
    (hnext : Answered c pass view pi pass.await reply next)
    (hfenced : c.fenced = true → c.delivers pass view pi = false) : Guarded next := by
  generalize hawait : pass.await = await at hnext
  cases hnext with
  | failed => exact h.of_eq rfl rfl rfl
  | resumed stage => exact h.continueAt hawait hfenced
  | hydrated message => exact h.of_eq rfl rfl rfl
  | branchReported reported owned entry next =>
      exact h.quiet (quiet_branchReported c pass view reported owned entry next)
  | startAnswered workflowTurnId message next receipt =>
      exact h.quiet (quiet_startAnswered c pass workflowTurnId message next receipt)
  | beforeTurnEnd workflowTurnId message stopReason responseSessionEntryId next =>
      refine h.quiet (Quiet.suspend (Quiet.note (.refl c) ?_) _)
      exact ⟨trivial, id⟩
  | endAnswered workflowTurnId message stopReason responseSessionEntryId next receipt hvalid =>
      exact h.quiet (quiet_endAnswered c pass workflowTurnId message next)
  | terminalDelivered message =>
      rw [delivers, hawait] at hfenced
      exact (h.of_eq rfl rfl rfl : Guarded { c with
        finalizedTerminals := c.finalizedTerminals ++ [message.workflowMessageId] }).deliver
          hfenced pi

theorem Guarded.resume {c : Coordinator} (h : Guarded c) {index : Nat} {reply : Reply}
    {pi : PiDuring} (hfits : c.HeedsFence (.resume index reply pi)) :
    Guarded (c.resume index reply pi) := by
  obtain heq | ⟨pass, view, hpass, hview, hnext⟩ := resume_cases c index reply pi
  · rwa [heq]
  · have htaken : Guarded { c with passes := c.passes.eraseIdx index } := h.of_eq rfl rfl rfl
    exact htaken.answered hnext fun hflag => hfits hflag pass view hpass hview

theorem Guarded.updateView {c : Coordinator} (h : Guarded c) (view : SessionView) :
    Guarded (c.updateView view) where
  held := FenceHeld.concat h (fun hdelivers => absurd hdelivers id) fun v messageId heq => by cases heq
  fenced := by
    show (c.log ++ [_]).foldl fencedNext false = false
    rw [List.foldl_append, List.foldl_cons, List.foldl_nil, fencedNext]
  view v hview before mid hlog := by
    obtain rfl := Option.some.inj hview
    rcases append_eq_split hlog with ⟨-, -, heq⟩ | ⟨mid', rfl, -⟩
    · cases heq
    · exact ⟨view, List.mem_append_right _ List.mem_cons_self⟩

theorem Guarded.fence {c : Coordinator} (h : Guarded c) : Guarded c.fence where
  held := FenceHeld.concat h (fun hdelivers => absurd hdelivers id) fun v messageId heq => by cases heq
  fenced := by
    show (c.log ++ [_]).foldl fencedNext false = true
    rw [List.foldl_append, List.foldl_cons, List.foldl_nil, fencedNext]
  view v hview before mid hlog := by
    rcases append_eq_split hlog with ⟨-, -, heq⟩ | ⟨mid', rfl, hbefore⟩
    · cases heq
    · obtain ⟨view, hmem⟩ := h.view v hview before mid' hbefore
      exact ⟨view, List.mem_append_left _ hmem⟩

theorem Guarded.clear {c : Coordinator} (h : Guarded c) : Guarded c.clear := by
  have hdropped := h.quiet (quiet_dropTurn c .cleared)
  rw [Coordinator.clear]
  generalize dropTurn .cleared c = dropped at hdropped
  refine ⟨FenceHeld.concat hdropped (fun hdelivers => absurd hdelivers id)
    (fun v messageId heq => by cases heq), ?_, fun v hview => ?_⟩
  · show (dropped.log ++ [_]).foldl fencedNext false = false
    rw [List.foldl_append, List.foldl_cons, List.foldl_nil, fencedNext]
  · cases hview

/-- A step that heeds the fence keeps the log in order. -/
theorem Guarded.act {c : Coordinator} (h : Guarded c) {action : Action}
    (hfits : c.HeedsFence action) : Guarded (c.act action) := by
  cases action with
  | updateView view => exact h.updateView view
  | branchChanged => exact h.of_eq rfl rfl rfl
  | pi call => exact h.quiet (quiet_piCall c call)
  | fence => exact h.fence
  | clear => exact h.clear
  | abortCancelledTurn pi => exact h.quiet (quiet_abort c _ _)
  | synchronize pi => exact h.quiet (quiet_synchronize c pi)
  | resume index reply pi => exact h.resume hfits

theorem Guarded.initial : Guarded Coordinator.initial where
  held := ⟨fun before event after h => by simp [Coordinator.initial] at h,
    fun before mid v messageId after h => by simp [Coordinator.initial] at h⟩
  fenced := rfl
  view v h := by cases h

/-- Where no suspended pass is let go on under a fence up to the point where it would deliver,
a fence holds. -/
theorem acts_fenceHeld {actions : List Action}
    (h : Trace.Fits act HeedsFence Coordinator.initial actions) : FenceHeld (acts actions).log :=
  (h.invariant Guarded (fun _ _ hc hfits => hc.act hfits) .initial).held

theorem heedsFence_of_open {c : Coordinator} (h : c.fenced = false) {index : Nat} {reply : Reply}
    {pi : PiDuring} : c.HeedsFence (.resume index reply pi) := fun hfenced => by
  rw [h] at hfenced
  cases hfenced

/-- A message that starts a turn. -/
def waitingMessage : SessionMessage where
  workflowMessageId := "message"
  runId := "run"
  kind := .step
  status := .pending
  piSessionEntryId := none
  triggerTurn := true
  contentDigest := "digest"
  deliveryCancelled := false

def waitingView : SessionView where
  sessionId := "session"
  workflowMessage := some waitingMessage
  openWorkflowTurn := none
  coordinatorEpoch := some "epoch"
  coordinatorActive := true
  branchReportRequired := false

/-- Pi with nothing to do and nothing in its session. -/
def idlePi : PiState where
  isIdle := true
  hasPendingMessages := false
  branch := []

/-- Pi, which stays so and takes a message. -/
def quietPi : PiDuring where
  start := idlePi
  onAbort := []
  afterAbort := idlePi
  freshTurnId := "turn"
  onSend := []
  sendReturns := true
  afterSend := idlePi

/-- A pass that has come to the place behind its second flush. -/
def flushedActions : List Action :=
  [.updateView waitingView, .synchronize quietPi, .resume 0 (.hydrated true) quietPi,
    .resume 0 .resumed quietPi, .resume 0 .accepted quietPi, .resume 0 .resumed quietPi]

/-- A pass that has sent its message waits for its report while the view is fenced. -/
theorem reportedLate_fenceHeld :
    FenceHeld (acts (flushedActions ++ [.resume 0 .resumed quietPi, .fence,
      .resume 0 .accepted quietPi])).log := by
  refine acts_fenceHeld ?_
  refine Trace.fits_cons.2 ⟨trivial, Trace.fits_cons.2 ⟨trivial, ?_⟩⟩
  refine Trace.fits_cons.2 ⟨heedsFence_of_open rfl, Trace.fits_cons.2 ⟨heedsFence_of_open rfl, ?_⟩⟩
  refine Trace.fits_cons.2 ⟨heedsFence_of_open rfl, Trace.fits_cons.2 ⟨heedsFence_of_open rfl, ?_⟩⟩
  refine Trace.fits_cons.2 ⟨heedsFence_of_open rfl, Trace.fits_cons.2 ⟨trivial, ?_⟩⟩
  refine Trace.fits_cons.2 ⟨fun _ pass view hpass _ => ?_, Trace.fits_nil⟩
  have hwaiting : some (SuspendedPass.mk 0 []
    (.branchReport (some waitingMessage) false none .sentReported)) = some pass := hpass
  obtain rfl := Option.some.inj hwaiting
  rfl

/-- The view is fenced before the pass goes on, and it sends its message. -/
theorem fence_overtaken : ¬ ∀ actions, FenceHeld (acts actions).log := by
  intro h
  have hlog : (acts (flushedActions ++ [.fence, .resume 0 .resumed quietPi])).log =
      [.viewed 0 waitingView, .fenced, .owned "turn", .sent 0 "message"] := rfl
  have hfenced := (h _).fenced [.viewed 0 waitingView, .fenced] (.owned "turn")
    [.sent 0 "message"] hlog trivial
  cases hfenced

end Coordinator

end PiWorkflows
