import PiWorkflows.Lib.Trace
import PiWorkflows.Workflows.Transitions

/-!
# Accepted transitions walk the graph

The durable owner of a run never stores a path: it keeps the recorded steps, the
last result of each node and at most one active attempt, and checks each
proposal against those. This file proves that what it accepts is a walk of the
definition's graph all the same.

`Advance` says once what an accepted transition can do to the fields that
matter here: start the attempt the route asks for, record the active attempt,
keep or give up the active attempt with the history untouched, or end the run.
`applyExecutionTransition_advances` reads it off the code, and every invariant
below is a case analysis on it.

The invariant that carries the walk is about the active attempt: while one is
active, its node is the one the recorded history routes to. It has to survive
waiting and re-entry, and it does because a run waits on the node of its active
attempt (`GraphInvariant.waiting`), so an accepted interaction puts the same
node back.
-/

namespace PiWorkflows

open Fallible

section

variable (dateParse : String → Option Int) (definition : DefinitionSnapshot)

/-- The route a recorded step leads to, read from its own result record. -/
def recordedRoute (step : StepRecord) : Except String (Option RouteTarget) :=
  let result := resultRecord dateParse step
  if step.outcome = .ok then
    resolveNext definition.edges step.nodeId (.ofOption step.output) result.ref
  else resolveNextForOutcome definition.edges step.nodeId result.ref

/-- The route after a history of steps. -/
def routeAfter (steps : List StepRecord) : Except String (Option RouteTarget) :=
  match steps.getLast? with
  | none => .ok (some (.node definition.startAt))
  | some last => recordedRoute dateParse definition last

/-- The recorded steps walk the graph: each one stands where the steps before it
route to. -/
def IsWalk (steps : List StepRecord) : Prop :=
  ∀ i step, steps[i]? = some step →
    routeAfter dateParse definition (steps.take i) = .ok (some (.node step.nodeId))

theorem IsWalk.append {steps : List StepRecord} {step : StepRecord}
    (h : IsWalk dateParse definition steps)
    (hroute : routeAfter dateParse definition steps = .ok (some (.node step.nodeId))) :
    IsWalk dateParse definition (steps ++ [step]) := by
  intro i s hs
  rcases Nat.lt_trichotomy i steps.length with hlt | heq | hgt
  · rw [List.getElem?_append_left hlt] at hs
    rw [List.take_append_of_le_length (by omega)]
    exact h i s hs
  · subst heq
    rw [List.getElem?_append_right (by omega)] at hs
    simp only [Nat.sub_self, List.getElem?_cons_zero, Option.some.injEq] at hs
    subst hs
    rw [List.take_append_of_le_length (by omega), List.take_length]
    exact hroute
  · rw [List.getElem?_eq_none (by simp; omega)] at hs
    cases hs

/-- The first step of a walk stands on the start node. -/
theorem IsWalk.starts {steps : List StepRecord} {first : StepRecord}
    (h : IsWalk dateParse definition steps) (hfirst : steps[0]? = some first) :
    first.nodeId = definition.startAt := by
  have hroute := h 0 first hfirst
  simp only [List.take_zero, routeAfter, List.getLast?_nil, Except.ok.injEq, Option.some.injEq,
    RouteTarget.node.injEq] at hroute
  exact hroute.symm

/-- Every further step stands where the result of the step before it routes to. -/
theorem IsWalk.follows {steps : List StepRecord} {i : Nat} {step next : StepRecord}
    (h : IsWalk dateParse definition steps) (hstep : steps[i]? = some step)
    (hnext : steps[i + 1]? = some next) :
    recordedRoute dateParse definition step = .ok (some (.node next.nodeId)) := by
  have hroute := h (i + 1) next hnext
  have hlast : (steps.take (i + 1)).getLast? = some step := by
    obtain ⟨hi, rfl⟩ := List.getElem?_eq_some_iff.1 hstep
    rw [List.take_succ_eq_append_getElem hi, List.getLast?_append]
    rfl
  simpa only [routeAfter, hlast] using hroute

end

/-! ## What an accepted transition can do -/

/-- The recorded history of a run. -/
def SameHistory (s s' : RunState) : Prop :=
  s'.steps = s.steps ∧ s'.results = s.results ∧ s'.finalOutput = s.finalOutput

/-- The effect of an accepted transition on the graph part of the projection. -/
inductive Advance (dateParse : String → Option Int) (definition : DefinitionSnapshot)
    (s s' : RunState) : Prop where
  /-- The attempt the accepted route asks for becomes the active one. -/
  | started (nodeId attemptId : String)
      (running : s.status = .running) (idle : s.currentAttemptId = none)
      (fresh : ∀ step ∈ s.steps, step.attemptId ≠ attemptId)
      (route : nextNode definition s = .ok (some (.node nodeId)))
      (node : s'.currentNode = some nodeId) (attempt : s'.currentAttemptId = some attemptId)
      (status : s'.status = .running) (waitingOn : s'.waitingOn = s.waitingOn)
      (history : SameHistory s s')
  /-- The active attempt is recorded. -/
  | recorded (step : StepRecord)
      (running : s.status = .running) (node : s.currentNode = some step.nodeId)
      (attempt : s.currentAttemptId = some step.attemptId)
      (steps : s'.steps = s.steps ++ [step])
      (results : s'.results =
        Assoc.setKey step.nodeId (resultRecord dateParse step) s.results)
      (idle : s'.currentAttemptId = none)
      (status : s'.status = .running) (waitingOn : s'.waitingOn = s.waitingOn)
      (finalOutput : s'.finalOutput = s.finalOutput)
  /-- The attempt, active or not, goes on. -/
  | kept (running : s.status = .running) (attempt : s'.currentAttemptId = s.currentAttemptId)
      (node : s'.currentNode = s.currentNode) (status : s'.status = .running)
      (waitingOn : s'.waitingOn = s.waitingOn) (history : SameHistory s s')
  /-- The run stops to wait on the node of the active attempt. -/
  | waited (nodeId : String)
      (running : s.status = .running) (node : s.currentNode = some nodeId)
      (attempt : s'.currentAttemptId = s.currentAttemptId)
      (same : s'.currentNode = s.currentNode) (status : s'.status = .waiting)
      (waitingOn : s'.waitingOn = some nodeId) (history : SameHistory s s')
  /-- The run goes back to the node it waited on. -/
  | reentered (nodeId : String)
      (live : s.status = .running ∨ s.status = .waiting)
      (waited : s.waitingOn = some nodeId) (node : s'.currentNode = some nodeId)
      (attempt : s'.currentAttemptId = s.currentAttemptId) (status : s'.status = .running)
      (waitingOn : s'.waitingOn = none) (history : SameHistory s s')
  /-- The active attempt is given up. -/
  | released (running : s.status = .running) (idle : s'.currentAttemptId = none)
      (status : s'.status = .running) (waitingOn : s'.waitingOn = s.waitingOn)
      (history : SameHistory s s')
  /-- The run ends, and with no active attempt. -/
  | ended (live : s.status.isTerminal = false) (terminal : s'.status.isTerminal = true)
      (idle : s'.currentAttemptId = none) (steps : s'.steps = s.steps) (results : s'.results = s.results)
      (complete : s'.status = .completed →
        ∃ last, s.steps.getLast? = some last ∧ last.outcome = .ok ∧
          nextNode definition s = .ok none ∧
          (s.finalOutput = none → sameOutput s'.finalOutput last.output = true))

section

variable {dateParse : String → Option Int} {definition : DefinitionSnapshot}
  {s s' : RunState} {event : TraceEventDraft}

theorem requireAttempt_ok (h : requireAttempt s event = .ok ()) :
    ∃ nodeId attemptId, event.nodeId = some nodeId ∧ event.attemptId = some attemptId ∧
      s.currentNode = some nodeId ∧ s.currentAttemptId = some attemptId := by
  simp only [requireAttempt, requireIdentity, bind_ok, orThrow_ok, require_ok, pure_ok] at h
  obtain ⟨nodeId, ⟨_, hn, _, _, rfl⟩, attemptId, ⟨_, ha, _, _, rfl⟩, hnode, hattempt⟩ := h
  exact ⟨_, _, hn, ha, hnode, hattempt⟩

theorem setSettings_ok {payload : List (String × Json)} (h : setSettings s payload = .ok s') :
    s'.currentNode = s.currentNode ∧ s'.currentAttemptId = s.currentAttemptId ∧
      s'.status = s.status ∧ s'.waitingOn = s.waitingOn ∧ SameHistory s s' := by
  simp only [setSettings] at h
  split at h
  · split at h
    · cases h; exact ⟨rfl, rfl, rfl, rfl, rfl, rfl, rfl⟩
    · cases h
  · cases h; exact ⟨rfl, rfl, rfl, rfl, rfl, rfl, rfl⟩

theorem withStatusDetail_same (node : Option NodeSnapshot) :
    ∃ detail, withStatusDetail s node = { s with statusDetail := detail } := by
  unfold withStatusDetail
  split
  · next detail _ => exact ⟨some detail, rfl⟩
  · exact ⟨s.statusDetail, rfl⟩

theorem startAttempt_advances {startedAt : String} (hrun : s.status = .running)
    (h : startAttempt dateParse definition s event startedAt = .ok s') :
    Advance dateParse definition s s' := by
  simp only [startAttempt, requireEvent, requireIdentity, bind_ok, orThrow_ok, require_ok,
    pure_ok] at h
  obtain ⟨_, _, nodeId, ⟨_, _, _, _, rfl⟩, attemptId, ⟨_, _, _, _, rfl⟩, node, _, _, _, _, hfresh,
    _, hidle, route, hroute, _, rfl, _, _, bound, hbound, rfl⟩ := h
  obtain ⟨hnode, hattempt, hstatus, hwaiting, hhistory⟩ := setSettings_ok hbound
  obtain ⟨detail, hdetail⟩ := withStatusDetail_same (s := bound) node
  rw [hdetail]
  refine .started _ _ hrun hidle (fun step hs he => hfresh ⟨step, hs, he⟩) hroute hnode hattempt
    (hstatus.trans hrun) hwaiting hhistory

theorem finishAttempt_advances {step : StepRecord} (hrun : s.status = .running)
    (h : finishAttempt dateParse definition s event step = .ok s') :
    Advance dateParse definition s s' := by
  simp only [finishAttempt, requireEvent, bind_ok, require_ok, pure_ok] at h
  obtain ⟨_, _, _, hactive, _, ⟨hid, hnode, _⟩, _, _, rfl⟩ := h
  obtain ⟨nodeId, attemptId, hn, ha, hcur, hact⟩ := requireAttempt_ok hactive
  rw [hid] at ha
  rw [hnode] at hn
  cases ha
  cases hn
  exact .recorded step hrun hcur hact rfl rfl rfl hrun rfl rfl

theorem setTimeout_advances {timeoutMs : Option JsNumber} (hrun : s.status = .running)
    (h : setTimeout s event timeoutMs = .ok s') : Advance dateParse definition s s' := by
  simp only [setTimeout, bind_ok, pure_ok] at h
  obtain ⟨_, _, _, _, _, _, _, _, rfl⟩ := h
  exact .kept hrun rfl rfl hrun rfl ⟨rfl, rfl, rfl⟩

theorem resume_advances {attemptId : Option String} (hrun : s.status = .running)
    (h : resume s event attemptId = .ok s') : Advance dateParse definition s s' := by
  simp only [resume, bind_ok, pure_ok] at h
  obtain ⟨_, _, _, _, rfl⟩ := h
  split
  · exact .released hrun rfl hrun rfl ⟨rfl, rfl, rfl⟩
  · exact .kept hrun rfl rfl hrun rfl ⟨rfl, rfl, rfl⟩

theorem pause_advances (hrun : s.status = .running) (h : pause s event = .ok s') :
    Advance dateParse definition s s' := by
  simp only [pause, bind_ok, pure_ok] at h
  obtain ⟨_, _, rfl⟩ := h
  exact .kept hrun rfl rfl hrun rfl ⟨rfl, rfl, rfl⟩

theorem waitForInput_advances {requestKind : CheckpointKind} (hrun : s.status = .running)
    (h : waitForInput definition s event requestKind = .ok s') :
    Advance dateParse definition s s' := by
  simp only [waitForInput, requireIdentity, bind_ok, orThrow_ok, pure_ok] at h
  obtain ⟨_, _, _, hactive, _, _, nodeId, ⟨_, hn, _, _, rfl⟩, rfl⟩ := h
  obtain ⟨nodeId', _, hn', _, hcur, _⟩ := requireAttempt_ok hactive
  rw [hn] at hn'
  cases hn'
  exact .waited _ hrun hcur rfl rfl rfl rfl ⟨rfl, rfl, rfl⟩

theorem resumeInteraction_advances (hlive : s.status = .running ∨ s.status = .waiting)
    (h : resumeInteraction s event = .ok s') :
    Advance dateParse definition s s' := by
  simp only [resumeInteraction, requireIdentity, bind_ok, orThrow_ok, require_ok, pure_ok] at h
  obtain ⟨_, _, _, ⟨hwaiting, _⟩, nodeId, ⟨_, hn, _, _, rfl⟩, rfl⟩ := h
  exact .reentered _ hlive (hwaiting.trans hn) rfl rfl rfl rfl ⟨rfl, rfl, rfl⟩

theorem requireCompletion_ok {finalOutput : Option Json}
    (h : requireCompletion definition s finalOutput = .ok ()) :
    ∃ last, s.steps.getLast? = some last ∧ last.outcome = .ok ∧
      nextNode definition s = .ok none ∧ sameOutput finalOutput last.output = true := by
  simp only [requireCompletion, bind_ok, orThrow_ok, require_ok] at h
  obtain ⟨_, _, last, hlast, _, hok, route, hroute, rfl, hsame⟩ := h
  exact ⟨last, hlast, hok, hroute, hsame⟩

theorem finish_advances {status : RunStatus} {error : Option String} {finalOutput : Option Json}
    {now : String} (hrun : s.status = .running) (h : finish definition s event status error finalOutput now = .ok s') :
    Advance dateParse definition s s' := by
  simp only [finish, bind_ok, require_ok, onlyIf_ok, pure_ok] at h
  obtain ⟨_, ⟨hterminal, _⟩, _, hcomplete, rfl⟩ := h
  refine .ended (by rw [hrun]; rfl) hterminal rfl rfl rfl fun hst => ?_
  obtain ⟨last, hlast, hok, hroute, hsame⟩ := requireCompletion_ok (hcomplete hst)
  refine ⟨last, hlast, hok, hroute, fun hnone => ?_⟩
  cases finalOutput with
  | none => simpa [clearAttempt, hnone] using hsame
  | some v => exact hsame

theorem record_advances (hrun : s.status = .running) (h : record s event = .ok s') :
    Advance dateParse definition s s' := by
  simp only [record, retrySettings, bind_ok] at h
  obtain ⟨_, _, _, _, h⟩ := h
  have hkept : ∀ t : RunState, t.currentAttemptId = s.currentAttemptId →
      t.currentNode = s.currentNode → t.status = s.status → t.waitingOn = s.waitingOn →
      SameHistory s t → Advance dateParse definition s t :=
    fun t ha hn hs hw hh => .kept hrun ha hn (hs.trans hrun) hw hh
  repeat' split at h
  all_goals cases h
  all_goals exact hkept _ rfl rfl rfl rfl ⟨rfl, rfl, rfl⟩

/-- Everything an accepted transition can do. -/
theorem applyExecutionTransition_advances {transition : WorkflowTransition} {now : String}
    (h : applyExecutionTransition dateParse s definition transition now = .ok s') :
    Advance dateParse definition s s' := by
  simp only [applyExecutionTransition, bind_ok, require_ok] at h
  obtain ⟨_, hlive, h⟩ := h
  rcases transition with ⟨event, kind⟩
  cases kind with
  | resumeInteraction => exact resumeInteraction_advances (by simpa using hlive) h
  | finish => exact finish_advances (by simpa using hlive) h
  | startAttempt => exact startAttempt_advances (by simpa using hlive) h
  | finishAttempt => exact finishAttempt_advances (by simpa using hlive) h
  | setTimeout => exact setTimeout_advances (by simpa using hlive) h
  | resume => exact resume_advances (by simpa using hlive) h
  | pause => exact pause_advances (by simpa using hlive) h
  | waitForInput => exact waitForInput_advances (by simpa using hlive) h
  | record => exact record_advances (by simpa using hlive) h

/-- A run that is over accepts nothing more. -/
theorem applyExecutionTransition_of_terminal {transition : WorkflowTransition} {now : String}
    (hs : s.status.isTerminal = true) :
    ∃ message, applyExecutionTransition dateParse s definition transition now =
      .error message := by
  cases h : applyExecutionTransition dateParse s definition transition now with
  | error message => exact ⟨message, rfl⟩
  | ok s' =>
      simp only [applyExecutionTransition, bind_ok, require_ok] at h
      obtain ⟨_, hlive, -⟩ := h
      rcases hlive with hrun | ⟨hwait, _⟩
      · rw [hrun] at hs; cases hs
      · rw [hwait] at hs; cases hs

end

/-! ## The invariant -/

section

variable (dateParse : String → Option Int) (definition : DefinitionSnapshot)

/-- A run that has just been created: it runs, and nothing has happened yet. -/
structure RunState.Fresh (s : RunState) : Prop where
  running : s.status = .running
  steps : s.steps = []
  idle : s.currentAttemptId = none
  waitingOn : s.waitingOn = none
  finalOutput : s.finalOutput = none

/-- What every accepted transition keeps. -/
structure GraphInvariant (s : RunState) : Prop where
  walk : IsWalk dateParse definition s.steps
  result : ∀ last, s.steps.getLast? = some last →
    s.results.lookup last.nodeId = some (resultRecord dateParse last)
  distinct : (s.steps.map StepRecord.attemptId).Nodup
  active : ∀ attemptId, s.currentAttemptId = some attemptId →
    (∀ step ∈ s.steps, step.attemptId ≠ attemptId) ∧
      ∃ nodeId, s.currentNode = some nodeId ∧
        routeAfter dateParse definition s.steps = .ok (some (.node nodeId))
  running : s.status = .running → s.waitingOn = none
  waiting : s.status = .waiting → s.waitingOn = s.currentNode
  unfinished : s.status.isTerminal = false → s.finalOutput = none
  completed : s.status = .completed → ∃ last, s.steps.getLast? = some last ∧
    last.outcome = .ok ∧ recordedRoute dateParse definition last = .ok none ∧
      s.currentAttemptId = none ∧ sameOutput s.finalOutput last.output = true

variable {dateParse} {definition} {s s' : RunState}

theorem RunState.Fresh.graphInvariant (h : s.Fresh) : GraphInvariant dateParse definition s where
  walk := by rw [h.steps]; intro i step hs; cases hs
  result := by rw [h.steps]; intro last hl; cases hl
  distinct := by rw [h.steps]; exact List.nodup_nil
  active := by rw [h.idle]; intro attemptId ha; cases ha
  running _ := h.waitingOn
  waiting hw := by rw [h.running] at hw; cases hw
  unfinished _ := h.finalOutput
  completed hc := by rw [h.running] at hc; cases hc

/-- The route the code computes from its tables is the route of the history. -/
theorem GraphInvariant.nextNode_eq (h : GraphInvariant dateParse definition s) :
    nextNode definition s = routeAfter dateParse definition s.steps := by
  cases hlast : s.steps.getLast? with
  | none => simp only [nextNode, routeAfter, hlast]
  | some last =>
      simp only [nextNode, routeAfter, hlast, h.result last hlast]
      rfl

/-- Leaving the history and the waiting discipline alone keeps the invariant, if
the attempt that is active afterwards was on the route already. -/
theorem GraphInvariant.of_sameHistory (h : GraphInvariant dateParse definition s)
    (hhistory : SameHistory s s') (hrunning : s.status = .running ∨ s.status = .waiting)
    (hactive : ∀ attemptId, s'.currentAttemptId = some attemptId →
      (∀ step ∈ s.steps, step.attemptId ≠ attemptId) ∧
        ∃ nodeId, s'.currentNode = some nodeId ∧
          routeAfter dateParse definition s.steps = .ok (some (.node nodeId)))
    (hstatus : (s'.status = .running ∧ s'.waitingOn = none) ∨
      (s'.status = .waiting ∧ s'.waitingOn = s'.currentNode)) :
    GraphInvariant dateParse definition s' := by
  obtain ⟨hsteps, hresults, hfinal⟩ := hhistory
  have hopen : s.finalOutput = none := by
    rcases hrunning with hs | hs <;> exact h.unfinished (by rw [hs]; rfl)
  refine ⟨?_, ?_, ?_, ?_, ?_, ?_, ?_, ?_⟩
  · rw [hsteps]; exact h.walk
  · rw [hsteps, hresults]; exact h.result
  · rw [hsteps]; exact h.distinct
  · rw [hsteps]; exact hactive
  · intro hr
    rcases hstatus with ⟨_, hw⟩ | ⟨hs, _⟩
    · exact hw
    · rw [hs] at hr; cases hr
  · intro hr
    rcases hstatus with ⟨hs, _⟩ | ⟨_, hw⟩
    · rw [hs] at hr; cases hr
    · exact hw
  · intro _
    rw [hfinal]
    exact hopen
  · intro hc
    rcases hstatus with ⟨hs, _⟩ | ⟨hs, _⟩ <;> (rw [hs] at hc; cases hc)

/-- Recording the active attempt extends the walk by one step. -/
theorem GraphInvariant.of_recorded (h : GraphInvariant dateParse definition s)
    {step : StepRecord} (hrun : s.status = .running)
    (hnode : s.currentNode = some step.nodeId)
    (hattempt : s.currentAttemptId = some step.attemptId)
    (hsteps : s'.steps = s.steps ++ [step])
    (hresults : s'.results = Assoc.setKey step.nodeId (resultRecord dateParse step) s.results)
    (hidle : s'.currentAttemptId = none) (hstatus : s'.status = .running)
    (hwaiting : s'.waitingOn = s.waitingOn) (hfinal : s'.finalOutput = s.finalOutput) :
    GraphInvariant dateParse definition s' := by
  obtain ⟨hfresh, nodeId, hcur, hroute⟩ := h.active _ hattempt
  rw [hnode] at hcur
  cases hcur
  refine ⟨?_, ?_, ?_, ?_, ?_, ?_, ?_, ?_⟩
  · rw [hsteps]; exact h.walk.append _ _ hroute
  · intro last hlast
    rw [hsteps, List.getLast?_append, List.getLast?_singleton, Option.some_or,
      Option.some.injEq] at hlast
    subst hlast
    rw [hresults, Assoc.lookup_setKey, if_pos rfl]
  · rw [hsteps, List.map_append, List.nodup_append]
    refine ⟨h.distinct, by simp, ?_⟩
    intro a ha b hb
    obtain ⟨prior, hprior, rfl⟩ := List.mem_map.1 ha
    simp only [List.map_cons, List.map_nil, List.mem_singleton] at hb
    subst hb
    exact hfresh prior hprior
  · intro attemptId ha; rw [hidle] at ha; cases ha
  · intro _; rw [hwaiting]; exact h.running hrun
  · intro hw; rw [hstatus] at hw; cases hw
  · intro _; rw [hfinal]; exact h.unfinished (by rw [hrun]; rfl)
  · intro hc; rw [hstatus] at hc; cases hc

/-- Every accepted transition keeps the invariant, by what it can do. -/
theorem GraphInvariant.advance (h : GraphInvariant dateParse definition s)
    (hstep : Advance dateParse definition s s') : GraphInvariant dateParse definition s' := by
  cases hstep with
  | started nodeId attemptId running _ fresh route node attempt status waitingOn history =>
      refine h.of_sameHistory history (.inl running) ?_ (.inl ⟨status, ?_⟩)
      · intro a ha
        rw [attempt] at ha
        cases ha
        exact ⟨fresh, nodeId, node, h.nextNode_eq ▸ route⟩
      · rw [waitingOn]; exact h.running running
  | recorded step running node attempt steps results idle status waitingOn finalOutput =>
      exact h.of_recorded running node attempt steps results idle status waitingOn finalOutput
  | kept running attempt node status waitingOn history =>
      refine h.of_sameHistory history (.inl running) ?_ (.inl ⟨status, ?_⟩)
      · rw [attempt, node]; exact h.active
      · rw [waitingOn]; exact h.running running
  | waited nodeId running node attempt same status waitingOn history =>
      refine h.of_sameHistory history (.inl running) ?_ (.inr ⟨status, ?_⟩)
      · rw [attempt, same]; exact h.active
      · rw [waitingOn, same, node]
  | reentered nodeId live waited node attempt status waitingOn history =>
      refine h.of_sameHistory history live ?_ (.inl ⟨status, waitingOn⟩)
      -- The run waited on the node of its active attempt, so that node is back.
      have hcur : s.currentNode = some nodeId := by
        rcases live with hr | hw
        · rw [h.running hr] at waited; cases waited
        · rw [← h.waiting hw, waited]
      rw [attempt, node, ← hcur]
      exact h.active
  | released running idle status waitingOn history =>
      refine h.of_sameHistory history (.inl running) ?_ (.inl ⟨status, ?_⟩)
      · intro a ha; rw [idle] at ha; cases ha
      · rw [waitingOn]; exact h.running running
  | ended live terminal idle steps results complete =>
      refine ⟨?_, ?_, ?_, ?_, ?_, ?_, ?_, ?_⟩
      · rw [steps]; exact h.walk
      · rw [steps, results]; exact h.result
      · rw [steps]; exact h.distinct
      · intro a ha; rw [idle] at ha; cases ha
      · intro hr; rw [hr] at terminal; cases terminal
      · intro hw; rw [hw] at terminal; cases terminal
      · intro hopen; rw [terminal] at hopen; cases hopen
      · intro hc
        obtain ⟨last, hlast, hok, hroute, hsame⟩ := complete hc
        rw [h.nextNode_eq, routeAfter, hlast] at hroute
        rw [steps]
        exact ⟨last, hlast, hok, hroute, idle, hsame (h.unfinished live)⟩

/-! ## Runs -/

/-- What holds of a run after any transitions its owner accepted. -/
structure FollowsGraph (dateParse : String → Option Int) (definition : DefinitionSnapshot)
    (s : RunState) : Prop where
  /-- The walk starts at the start node. -/
  starts : ∀ first, s.steps[0]? = some first → first.nodeId = definition.startAt
  /-- Each further step is at the node the recorded result of the one before
  routes to. -/
  follows : ∀ i step next, s.steps[i]? = some step → s.steps[i + 1]? = some next →
    recordedRoute dateParse definition step = .ok (some (.node next.nodeId))
  distinct : (s.steps.map StepRecord.attemptId).Nodup
  active : ∀ attemptId, s.currentAttemptId = some attemptId →
    attemptId ∉ s.steps.map StepRecord.attemptId
  /-- The active attempt is the only one: no other may start beside it. -/
  exclusive : s.currentAttemptId ≠ none → ∀ event startedAt now, ∃ message,
    applyExecutionTransition dateParse s definition ⟨event, .startAttempt startedAt⟩ now =
      .error message
  completed : s.status = .completed → ∃ last, s.steps.getLast? = some last ∧
    last.outcome = .ok ∧ recordedRoute dateParse definition last = .ok none ∧
      s.currentAttemptId = none ∧ sameOutput s.finalOutput last.output = true
  /-- A run that ended accepts no transition of any kind. -/
  final : s.status.isTerminal = true → ∀ transition now, ∃ message,
    applyExecutionTransition dateParse s definition transition now = .error message

/-- An active attempt keeps every other one out. -/
theorem startAttempt_refused {event : TraceEventDraft} {startedAt now : String}
    (hactive : s.currentAttemptId ≠ none) :
    ∃ message, applyExecutionTransition dateParse s definition
      ⟨event, .startAttempt startedAt⟩ now = .error message := by
  cases h : applyExecutionTransition dateParse s definition ⟨event, .startAttempt startedAt⟩ now with
  | error message => exact ⟨message, rfl⟩
  | ok s' =>
      simp only [applyExecutionTransition, startAttempt, bind_ok, require_ok] at h
      obtain ⟨_, _, _, _, _, _, _, _, _, _, _, _, _, _, _, hidle, -⟩ := h
      exact absurd hidle hactive

theorem GraphInvariant.followsGraph (h : GraphInvariant dateParse definition s) :
    FollowsGraph dateParse definition s where
  starts _ hfirst := h.walk.starts _ _ hfirst
  follows _ _ _ hstep hnext := h.walk.follows _ _ hstep hnext
  distinct := h.distinct
  active attemptId ha hmem := by
    obtain ⟨step, hstep, heq⟩ := List.mem_map.1 hmem
    exact (h.active attemptId ha).1 step hstep heq
  exclusive hactive _ _ _ := startAttempt_refused hactive
  completed := h.completed
  final hterminal _ _ := applyExecutionTransition_of_terminal hterminal

/-- Whatever transitions the durable owner accepts, in whatever order a runner
proposes them, the run follows the graph. -/
theorem acceptedTransitions_followGraph {transitions : List (WorkflowTransition × String)}
    (hfresh : s.Fresh)
    (h : Trace.accepted (fun state (t : WorkflowTransition × String) =>
      applyExecutionTransition dateParse state definition t.1 t.2) s transitions = .ok s') :
    FollowsGraph dateParse definition s' := by
  have hinv : GraphInvariant dateParse definition s' := by
    refine Trace.accepted_invariant ?_ hfresh.graphInvariant h
    intro state t state' hstate hstep
    exact hstate.advance (applyExecutionTransition_advances hstep)
  exact hinv.followsGraph

end

/-- One compute node with nothing after it. -/
def oneNodeDefinition : DefinitionSnapshot where
  startAt := "only"
  nodes := [("only", { nodeType := .compute })]
  edges := []
  ownIds := by decide

/-- Start the node, record its result, complete the run. -/
def oneNodeTransitions : List (WorkflowTransition × String) :=
  [(⟨{ type := "node_started", nodeId := some "only", attemptId := some "a1"
       payload := [("nodeType", .str "compute")] }, .startAttempt "t0"⟩, "t0"),
   (⟨{ type := "node_finished", nodeId := some "only", attemptId := some "a1"
       payload := [("outcome", .str "ok"), ("output", .bool true)] },
     .finishAttempt
       { attemptId := "a1", nodeId := "only", nodeType := .compute, outcome := .ok
         startedAt := "t0", finishedAt := "t1", output := some (.bool true) }⟩, "t1"),
   (⟨{ type := "run_completed" }, .finish .completed none (some (.bool true))⟩, "t2")]

theorem oneNodeRun_followsGraph :
    ∃ s', Trace.accepted (fun state (t : WorkflowTransition × String) =>
        applyExecutionTransition (fun _ => some 0) state oneNodeDefinition t.1 t.2)
          { runId := "r", status := .running } oneNodeTransitions = .ok s' ∧
      s'.status = .completed ∧ FollowsGraph (fun _ => some 0) oneNodeDefinition s' := by
  have hrun : Trace.accepted (fun state (t : WorkflowTransition × String) =>
      applyExecutionTransition (fun _ => some 0) state oneNodeDefinition t.1 t.2)
        { runId := "r", status := .running } oneNodeTransitions = .ok _ := rfl
  exact ⟨_, hrun, rfl, acceptedTransitions_followGraph ⟨rfl, rfl, rfl, rfl, rfl⟩ hrun⟩

end PiWorkflows
