import PiWorkflows.Workflows.CommandBatch

/-!
# A batch leaves no item out and starts none twice

Every slot takes the next index and starts its item without a break, so the items that
were started are the first ones in order, each of them either has ended or is what
some slot waits for (`Inv.claimed`), and the results are those of the items that
have ended. When all slots have returned nothing is waited for, so every item that was
started has its result, and what is filled in belongs to the others.
-/

namespace PiWorkflows.Batch

open Fallible ChangeVerification

/-- An item has the result of its end, or it has none and has not ended. -/
def ResultsKnown (request : CommandBatchRequest) (log : List BatchEvent)
    (results : List (Option CommandBatchItemResult)) : Prop :=
  ∀ index item, request.items[index]? = some item →
    (index ∉ settledItems log ∧ results[index]? = some none) ∨
      ∃ ended, BatchEvent.settled index ended ∈ log ∧
        results[index]? = some (some (runItem item ended))

/-- What holds from one `await` to the next. -/
structure Inv (request : CommandBatchRequest) (st : BatchState) : Prop where
  slots : st.slots.length = runnerCount request
  length : st.results.length = request.items.length
  bounded : st.nextIndex ≤ request.items.length
  started : startedItems st.log = List.range st.nextIndex
  completed : st.completed = (settledItems st.log).length
  /-- An item that was started has ended, or a slot waits for it. -/
  claimed : (settledItems st.log ++ st.running).Perm (List.range st.nextIndex)
  items : ∀ index item, Slot.running index item ∈ st.slots → request.items[index]? = some item
  results : ResultsKnown request st.log st.results
  aborted : BatchEvent.aborted ∈ st.log ↔ st.aborted = true
  /-- No start stands after the abort. -/
  quiet : st.log.Pairwise fun earlier later =>
    earlier = .aborted → ∀ index, later ≠ .started index

/-! ## Slots -/

/-- A slot, the ones before it and the ones behind. -/
theorem slots_split {slots : List Slot} {slot : Nat} {old : Slot} (h : slots[slot]? = some old) :
    ∃ before behind, slots = before ++ old :: behind ∧
      ∀ new, slots.set slot new = before ++ new :: behind := by
  obtain ⟨hlt, hget⟩ := List.getElem?_eq_some_iff.1 h
  refine ⟨slots.take slot, slots.drop (slot + 1), ?_, fun new => ?_⟩
  · rw [← hget, List.getElem_cons_drop, List.take_append_drop]
  · rw [List.set_eq_take_append_cons_drop, if_pos hlt]

/-- A slot that changes gives up what it waited for and waits for something else. -/
theorem running_setSlot {st : BatchState} {slot : Nat} {old : Slot}
    (h : st.slots[slot]? = some old) : ∃ others, st.running.Perm (old.running?.toList ++ others) ∧
      ∀ new, (st.setSlot slot new).running.Perm (new.running?.toList ++ others) := by
  obtain ⟨before, behind, hslots, hset⟩ := slots_split h
  have hmiddle : ∀ new : Slot, ((before ++ new :: behind).filterMap Slot.running?).Perm
      (new.running?.toList ++ (before.filterMap Slot.running? ++
        behind.filterMap Slot.running?)) := by
    intro new
    have hnew : (new :: behind).filterMap Slot.running? =
        new.running?.toList ++ behind.filterMap Slot.running? := by
      rw [List.filterMap_cons]
      cases new.running? <;> rfl
    rw [List.filterMap_append, hnew]
    exact (List.perm_append_comm_assoc _ _ _)
  refine ⟨before.filterMap Slot.running? ++ behind.filterMap Slot.running?, ?_, fun new => ?_⟩
  · rw [BatchState.running, hslots]
    exact hmiddle old
  · rw [BatchState.running, BatchState.setSlot, hset]
    exact hmiddle new

theorem mem_setSlot {st : BatchState} {slot : Nat} {new state : Slot}
    (h : state ∈ (st.setSlot slot new).slots) : state ∈ st.slots ∨ state = new :=
  List.mem_or_eq_of_mem_set h

/-! ## The abort -/

theorem startedItems_append (log : List BatchEvent) (event : BatchEvent) :
    startedItems (log ++ [event]) = startedItems log ++ event.started?.toList := by
  rw [startedItems, List.filterMap_append, List.filterMap_cons]
  cases event.started? <;> rfl

theorem settledItems_append (log : List BatchEvent) (event : BatchEvent) :
    settledItems (log ++ [event]) = settledItems log ++ event.settled?.toList := by
  rw [settledItems, List.filterMap_append, List.filterMap_cons]
  cases event.settled? <;> rfl

theorem mem_settledItems {log : List BatchEvent} {index : Nat} {ended : ShellEnd}
    (h : BatchEvent.settled index ended ∈ log) : index ∈ settledItems log :=
  List.mem_filterMap.2 ⟨_, h, rfl⟩

theorem quiet_append {log : List BatchEvent} {event : BatchEvent}
    (h : log.Pairwise fun earlier later => earlier = .aborted → ∀ index, later ≠ .started index)
    (hevent : BatchEvent.aborted ∈ log → ∀ index, event ≠ .started index) :
    (log ++ [event]).Pairwise fun earlier later =>
      earlier = .aborted → ∀ index, later ≠ .started index := by
  rw [List.pairwise_append]
  refine ⟨h, List.pairwise_singleton _ _, fun earlier hearlier later hlater heq => ?_⟩
  rw [List.mem_singleton.1 hlater]
  exact hevent (heq ▸ hearlier)

theorem settledItems_same {log : List BatchEvent} {event : BatchEvent}
    (h : event.settled? = none) : settledItems (log ++ [event]) = settledItems log := by
  rw [settledItems_append, h]
  exact List.append_nil _

theorem ResultsKnown.append {request : CommandBatchRequest} {log : List BatchEvent}
    {results : List (Option CommandBatchItemResult)} (h : ResultsKnown request log results)
    {event : BatchEvent} (hevent : event.settled? = none) :
    ResultsKnown request (log ++ [event]) results := by
  intro index item hitem
  rw [settledItems_same hevent]
  rcases h index item hitem with hopen | ⟨ended, hmem, hsome⟩
  · exact .inl hopen
  · exact .inr ⟨ended, List.mem_append_left _ hmem, hsome⟩

theorem Inv.abort {request : CommandBatchRequest} {st : BatchState} (h : Inv request st) :
    Inv request st.abort := by
  unfold BatchState.abort
  split
  · exact h
  · have hsame : settledItems (st.log ++ [.aborted]) = settledItems st.log := settledItems_same rfl
    refine ⟨h.slots, h.length, h.bounded, ?_, ?_, ?_, h.items, h.results.append rfl, ?_, ?_⟩
    · rw [startedItems_append, h.started]
      exact List.append_nil _
    · rw [hsame]
      exact h.completed
    · rw [hsame]
      exact h.claimed
    · simp
    · exact quiet_append h.quiet fun _ index heq => by cases heq

/-! ## Entering the loop -/

/-- A slot that comes to the loop returns, or it starts the next item. -/
theorem enterLoop_cases (request : CommandBatchRequest) (slot : Nat) (st : BatchState) :
    enterLoop request slot st = st.setSlot slot .returned ∨
      ∃ item, st.aborted = false ∧ request.items[st.nextIndex]? = some item ∧
        enterLoop request slot st =
          { st with
            nextIndex := st.nextIndex + 1
            slots := st.slots.set slot (.running st.nextIndex item)
            log := st.log ++ [.started st.nextIndex] } := by
  unfold enterLoop
  by_cases habort : st.aborted = true
  · exact .inl (if_pos habort)
  · rw [if_neg habort]
    by_cases hall : request.items.length ≤ st.nextIndex
    · exact .inl (if_pos hall)
    · have hget := List.getElem?_eq_getElem (Nat.lt_of_not_le hall)
      refine .inr ⟨_, Bool.eq_false_iff.2 habort, hget, ?_⟩
      rw [if_neg hall, if_neg habort, hget]
      rfl

theorem Inv.enterLoop {request : CommandBatchRequest} {st : BatchState} {slot : Nat} {old : Slot}
    (h : Inv request st) (hslot : st.slots[slot]? = some old) (hidle : old.running? = none) :
    Inv request (enterLoop request slot st) := by
  obtain ⟨others, hold, hnew⟩ := running_setSlot hslot
  have hlength : ∀ new : Slot, (st.setSlot slot new).slots.length = runnerCount request :=
    fun new => List.length_set.trans h.slots
  rw [hidle, Option.toList_none, List.nil_append] at hold
  rcases enterLoop_cases request slot st with hreturn | ⟨item, habort, hitem, hstart⟩
  · rw [hreturn]
    refine ⟨hlength _, h.length, h.bounded, h.started, h.completed, ?_, ?_, h.results, h.aborted,
      h.quiet⟩
    · exact (((hnew .returned).trans hold.symm).append_left _).trans h.claimed
    · intro index item hmem
      rcases mem_setSlot hmem with hmem | heq
      · exact h.items index item hmem
      · cases heq
  · rw [hstart]
    have hlt := (List.getElem?_eq_some_iff.1 hitem).1
    have hsame : settledItems (st.log ++ [.started st.nextIndex]) = settledItems st.log :=
      settledItems_same rfl
    refine ⟨hlength _, h.length, hlt, ?_, ?_, ?_, ?_, h.results.append rfl, ?_, ?_⟩
    · rw [startedItems_append, h.started, List.range_succ]
      rfl
    · rw [hsame]
      exact h.completed
    · have hrunning := hnew (.running st.nextIndex item)
      have hlast : (Slot.running st.nextIndex item).running?.toList = [st.nextIndex] := rfl
      rw [hlast] at hrunning
      rw [hsame, List.range_succ]
      refine List.Perm.trans ?_ (h.claimed.append_right [st.nextIndex])
      rw [List.append_assoc]
      exact List.Perm.append_left _
        (hrunning.trans (List.perm_append_comm.trans (hold.symm.append_right _)))
    · intro index known hmem
      rcases mem_setSlot hmem with hmem | heq
      · exact h.items index known hmem
      · cases heq
        exact hitem
    · rw [List.mem_append, List.mem_singleton]
      exact (or_iff_left (by intro heq; cases heq)).trans h.aborted
    · refine quiet_append h.quiet fun hmem => ?_
      rw [h.aborted.1 hmem] at habort
      cases habort

/-! ## The end of a command -/

/-- The result of a command is recorded, and its slot is about to tell. -/
def noteEnd (slot index : Nat) (item : CommandBatchItem) (ended : ShellEnd) (st : BatchState) :
    BatchState :=
  { st with
    results := st.results.set index (some (runItem item ended))
    completed := st.completed + 1
    slots := st.slots.set slot .notifying
    log := st.log ++ [.settled index ended] }

theorem enterLoop_setSlot (request : CommandBatchRequest) (slot : Nat) (old : Slot)
    (st : BatchState) : enterLoop request slot (st.setSlot slot old) = enterLoop request slot st := by
  have hset : (st.slots.set slot old).set slot = st.slots.set slot :=
    funext fun new => List.set_set ..
  simp only [enterLoop, BatchState.setSlot, hset]

theorem abort_setSlot (slot : Nat) (new : Slot) (st : BatchState) :
    (st.setSlot slot new).abort = st.abort.setSlot slot new := by
  by_cases h : st.aborted = true
  · simp [BatchState.abort, BatchState.setSlot, h]
  · simp [BatchState.abort, BatchState.setSlot, h]

/-- What follows on the record: perhaps the abort, and perhaps the loop. -/
theorem settleItem_eq (request : CommandBatchRequest) (slot index : Nat) (item : CommandBatchItem)
    (ended : ShellEnd) (answer : CallbackAnswer) (st : BatchState) :
    settleItem request slot index item ended answer st =
      let st := noteEnd slot index item ended st
      let st := if answer.aborts then st.abort else st
      if answer.throws then enterLoop request slot st else st := by
  have hrecorded : noteEnd slot index item ended st = BatchState.setSlot { st with
      results := st.results.set index (some (runItem item ended))
      completed := st.completed + 1
      log := st.log ++ [.settled index ended] } slot .notifying := rfl
  rw [settleItem, hrecorded]
  cases answer.aborts with
  | true => simp only [if_true, abort_setSlot, enterLoop_setSlot]
  | false => simp only [Bool.false_eq_true, if_false, enterLoop_setSlot]

theorem Inv.noteEnd {request : CommandBatchRequest} {st : BatchState} {slot index : Nat}
    {item : CommandBatchItem} (h : Inv request st)
    (hslot : st.slots[slot]? = some (.running index item)) (ended : ShellEnd) :
    Inv request (noteEnd slot index item ended st) := by
  obtain ⟨others, hold, hnew⟩ := running_setSlot hslot
  have hitem := h.items index item (List.mem_of_getElem? hslot)
  have hsettled : settledItems (st.log ++ [.settled index ended]) = settledItems st.log ++ [index] :=
    settledItems_append st.log (.settled index ended)
  refine ⟨List.length_set.trans h.slots, List.length_set.trans h.length, h.bounded, ?_, ?_, ?_, ?_,
    ?_, ?_, ?_⟩
  · exact ((startedItems_append _ _).trans (List.append_nil _)).trans h.started
  · have hlength : (settledItems (st.log ++ [.settled index ended])).length = st.completed + 1 := by
      rw [hsettled, List.length_append, ← h.completed]
      rfl
    exact hlength.symm
  · have hrunning : (Batch.noteEnd slot index item ended st).running.Perm others := hnew .notifying
    have hindex : st.running.Perm (index :: others) := hold
    refine List.Perm.trans ?_ h.claimed
    refine (hrunning.append_left _).trans ?_
    have hlog : (Batch.noteEnd slot index item ended st).log =
        st.log ++ [.settled index ended] := rfl
    rw [hlog, hsettled, List.append_assoc]
    exact hindex.symm.append_left _
  · intro other known hmem
    rcases mem_setSlot hmem with hmem | heq
    · exact h.items other known hmem
    · cases heq
  · intro other known hknown
    by_cases heq : other = index
    · subst heq
      have hsame : known = item := Option.some.inj (hknown.symm.trans hitem)
      rw [hsame]
      have hlt := (List.getElem?_eq_some_iff.1 hitem).1
      rw [← h.length] at hlt
      exact .inr ⟨ended, List.mem_append_right _ List.mem_cons_self,
        List.getElem?_set_self hlt⟩
    · have hkeep : (Batch.noteEnd slot index item ended st).results[other]? =
          st.results[other]? := List.getElem?_set_ne (Ne.symm heq)
      rw [hkeep]
      rcases h.results other known hknown with ⟨hopen, hnone⟩ | ⟨known', hmem, hsome⟩
      · refine .inl ⟨fun hmem => ?_, hnone⟩
        rcases List.mem_append.1 (hsettled ▸ hmem) with hmem | hmem
        · exact hopen hmem
        · exact heq (List.mem_singleton.1 hmem)
      · exact .inr ⟨known', List.mem_append_left _ hmem, hsome⟩
  · refine Iff.trans (List.mem_append.trans (or_iff_left ?_)) h.aborted
    intro hmem
    cases List.mem_singleton.1 hmem
  · exact quiet_append h.quiet fun _ _ heq => by cases heq

/-! ## Runs -/

theorem Inv.step {request : CommandBatchRequest} {st st' : BatchState} (h : Inv request st)
    (hstep : SlotStep request st st') : Inv request st' := by
  cases hstep with
  | notified hslot => exact h.enterLoop hslot rfl
  | @settled slot index item hslot ended answer =>
      have hlt := (List.getElem?_eq_some_iff.1 hslot).1
      have hnotifying : (Batch.noteEnd slot index item ended st).slots[slot]? = some .notifying :=
        List.getElem?_set_self hlt
      have hrecorded := h.noteEnd hslot ended
      rw [settleItem_eq]
      dsimp only
      have htold : ∀ told : BatchState, Inv request told → told.slots[slot]? = some .notifying →
          Inv request (if answer.throws then Batch.enterLoop request slot told else told) := by
        intro told htold hslot
        split
        · exact htold.enterLoop hslot rfl
        · exact htold
      cases answer.aborts with
      | false => exact htold _ hrecorded hnotifying
      | true =>
          refine htold _ hrecorded.abort ?_
          rw [if_pos rfl, BatchState.abort]
          split
          · exact hnotifying
          · exact hnotifying

theorem enterLoop_slots (request : CommandBatchRequest) (slot : Nat) (st : BatchState) :
    ∃ new, new ≠ Slot.ready ∧ (enterLoop request slot st).slots = st.slots.set slot new := by
  rcases enterLoop_cases request slot st with hreturn | ⟨item, -, -, hstart⟩
  · exact ⟨.returned, by decide, by rw [hreturn]; rfl⟩
  · exact ⟨.running st.nextIndex item, by simp, by rw [hstart]⟩

/-- After so many calls the slots behind are the ones that were not called. -/
theorem launch_fold (request : CommandBatchRequest) {st : BatchState} (h : Inv request st)
    (hready : ∀ slot, slot < runnerCount request → st.slots[slot]? = some .ready) (called : Nat)
    (hcalled : called ≤ runnerCount request) :
    Inv request ((List.range called).foldl (fun st slot => enterLoop request slot st) st) ∧
      ∀ slot, slot < runnerCount request →
        (((List.range called).foldl (fun st slot => enterLoop request slot st) st).slots[slot]? =
          some .ready ↔ called ≤ slot) := by
  induction called with
  | zero => exact ⟨h, fun slot hslot => iff_of_true (hready slot hslot) (Nat.zero_le slot)⟩
  | succ called ih =>
      obtain ⟨hinv, hslots⟩ := ih (Nat.le_of_succ_le hcalled)
      rw [List.range_succ, List.foldl_append, List.foldl_cons, List.foldl_nil]
      generalize (List.range called).foldl (fun st slot => enterLoop request slot st) st = mid
        at hinv hslots ⊢
      have hslot := (hslots called hcalled).2 le_rfl
      obtain ⟨new, hnew, hset⟩ := enterLoop_slots request called mid
      refine ⟨hinv.enterLoop hslot rfl, fun slot hlt => ?_⟩
      rw [hset]
      by_cases heq : slot = called
      · subst heq
        rw [List.getElem?_set_self (List.getElem?_eq_some_iff.1 hslot).1, Option.some.injEq]
        exact iff_of_false hnew (Nat.not_succ_le_self slot)
      · rw [List.getElem?_set_ne (Ne.symm heq), hslots slot hlt]
        omega

theorem inv_launch (request : CommandBatchRequest) (aborted : Bool) :
    Inv request (launch request aborted) ∧ Slot.ready ∉ (launch request aborted).slots := by
  have hstart : Inv request
      { nextIndex := 0
        completed := 0
        results := List.replicate request.items.length none
        aborted := aborted
        slots := List.replicate (runnerCount request) .ready
        log := if aborted then [.aborted] else [] } := by
    have hsettled : settledItems (if aborted then [BatchEvent.aborted] else []) = [] := by
      cases aborted <;> rfl
    have hidle : (List.replicate (runnerCount request) Slot.ready).filterMap Slot.running? = [] :=
      List.filterMap_eq_nil_iff.2 fun slot hslot => by rw [List.eq_of_mem_replicate hslot]; rfl
    refine ⟨List.length_replicate, List.length_replicate, Nat.zero_le _, ?_, ?_, ?_, ?_, ?_, ?_, ?_⟩
    · cases aborted <;> rfl
    · rw [hsettled]
      rfl
    · rw [hsettled, BatchState.running, hidle]
      exact .refl _
    · intro index item hmem
      cases List.eq_of_mem_replicate hmem
    · intro index item hitem
      rw [hsettled]
      have hlt := (List.getElem?_eq_some_iff.1 hitem).1
      exact .inl ⟨List.not_mem_nil, List.getElem?_replicate_of_lt hlt⟩
    · cases aborted <;> simp
    · cases aborted <;> simp
  obtain ⟨hinv, hslots⟩ := launch_fold request hstart
    (fun slot hslot => List.getElem?_replicate_of_lt hslot) (runnerCount request) le_rfl
  refine ⟨hinv, fun hmem => ?_⟩
  obtain ⟨slot, hslot⟩ := List.mem_iff_getElem?.1 hmem
  have hlt : slot < runnerCount request := by
    have hlength : (launch request aborted).slots.length = runnerCount request := hinv.slots
    exact hlength ▸ (List.getElem?_eq_some_iff.1 hslot).1
  exact absurd ((hslots slot hlt).1 hslot) (Nat.not_le_of_lt hlt)

theorem BatchRun.inv {request : CommandBatchRequest} {st : BatchState} (h : BatchRun request st) :
    Inv request st := by
  induction h with
  | launched aborted => exact (inv_launch request aborted).1
  | slot _ hstep ih => exact ih.step hstep
  | abort _ ih => exact ih.abort

end PiWorkflows.Batch
