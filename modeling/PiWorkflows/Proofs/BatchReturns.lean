import PiWorkflows.Proofs.BatchRuns

/-!
# What a batch returns

A slot that has not returned waits for its command or for its callback, and every
answer brings the batch closer to its end (`SlotStep.weight_lt`), so a batch whose
commands and callbacks come to an end returns. What it returns has one result for each
item, in its place (`Returns`).
-/

namespace PiWorkflows.Batch

open Fallible ChangeVerification

/-! ## Every answer counts -/

/-- How many answers a slot may still be given for what it waits for. -/
def Slot.weight : Slot → Nat
  | .ready | .notifying => 1
  | .running _ _ => 2
  | .returned => 0

/-- A bound on the answers that the slots are still given. -/
def BatchState.weight (request : CommandBatchRequest) (st : BatchState) : Nat :=
  3 * (request.items.length - st.nextIndex) + (st.slots.map Slot.weight).sum

theorem sum_weight_set {slots : List Slot} {slot : Nat} {old : Slot} (h : slots[slot]? = some old)
    (new : Slot) : ((slots.set slot new).map Slot.weight).sum + old.weight =
      (slots.map Slot.weight).sum + new.weight := by
  obtain ⟨before, behind, hslots, hset⟩ := slots_split h
  rw [hset, hslots]
  simp only [List.map_append, List.map_cons, List.sum_append, List.sum_cons]
  omega

theorem weight_enterLoop {request : CommandBatchRequest} {st : BatchState} {slot : Nat} {old : Slot}
    (h : st.slots[slot]? = some old) (hpos : 0 < old.weight) :
    (enterLoop request slot st).weight request < st.weight request := by
  rcases enterLoop_cases request slot st with hreturn | ⟨item, -, hitem, hstart⟩
  · have hsum := sum_weight_set h .returned
    have hnew : Slot.returned.weight = 0 := rfl
    rw [hreturn]
    simp only [BatchState.weight, BatchState.setSlot]
    omega
  · have hsum := sum_weight_set h (.running st.nextIndex item)
    have hnew : (Slot.running st.nextIndex item).weight = 2 := rfl
    have hlt := (List.getElem?_eq_some_iff.1 hitem).1
    rw [hstart]
    simp only [BatchState.weight]
    omega

theorem weight_abort (request : CommandBatchRequest) (st : BatchState) :
    st.abort.weight request = st.weight request := by
  rw [BatchState.abort]
  split <;> rfl

/-- An answer to a slot brings the end closer. -/
theorem SlotStep.weight_lt {request : CommandBatchRequest} {st st' : BatchState}
    (h : SlotStep request st st') : st'.weight request < st.weight request := by
  cases h with
  | notified hslot => exact weight_enterLoop hslot Nat.one_pos
  | @settled slot index item hslot ended answer =>
      have hsum := sum_weight_set hslot .notifying
      have hnoted : (noteEnd slot index item ended st).weight request < st.weight request := by
        simp only [BatchState.weight, noteEnd, Slot.weight] at hsum ⊢
        omega
      have hlt := (List.getElem?_eq_some_iff.1 hslot).1
      have hslot' : (noteEnd slot index item ended st).slots[slot]? = some .notifying :=
        List.getElem?_set_self hlt
      have htold : ∀ told : BatchState, told.slots[slot]? = some .notifying →
          (if answer.throws then enterLoop request slot told else told).weight request ≤
            told.weight request := by
        intro told htold
        split
        · exact (weight_enterLoop htold Nat.one_pos).le
        · exact le_rfl
      rw [settleItem_eq]
      dsimp only
      refine lt_of_le_of_lt (htold _ ?_) ?_
      · split
        · rw [BatchState.abort]
          split <;> exact hslot'
        · exact hslot'
      · split
        · rw [weight_abort]
          exact hnoted
        · exact hnoted

/-! ## Slots are called at once -/

theorem ready_abort {st : BatchState} (h : Slot.ready ∉ st.slots) : Slot.ready ∉ st.abort.slots := by
  rw [BatchState.abort]
  split <;> exact h

theorem ready_enterLoop {request : CommandBatchRequest} {st : BatchState} (slot : Nat)
    (h : Slot.ready ∉ st.slots) : Slot.ready ∉ (enterLoop request slot st).slots := by
  obtain ⟨new, hnew, hset⟩ := enterLoop_slots request slot st
  rw [hset]
  intro hmem
  rcases List.mem_or_eq_of_mem_set hmem with hmem | heq
  · exact h hmem
  · exact hnew heq.symm

/-- Every slot has been called before the first answer. -/
theorem BatchRun.called {request : CommandBatchRequest} {st : BatchState} (h : BatchRun request st) :
    Slot.ready ∉ st.slots := by
  induction h with
  | launched aborted => exact (inv_launch request aborted).2
  | abort _ ih => exact ready_abort ih
  | slot _ hstep ih =>
      cases hstep with
      | notified hslot => exact ready_enterLoop _ ih
      | @settled slot index item hslot ended answer =>
          have hnoted : Slot.ready ∉ (noteEnd slot index item ended _).slots := fun hmem =>
            (List.mem_or_eq_of_mem_set hmem).elim ih fun heq => by cases heq
          rw [settleItem_eq]
          dsimp only
          have htold : ∀ told : BatchState, Slot.ready ∉ told.slots →
              Slot.ready ∉ (if answer.throws then enterLoop request slot told else told).slots := by
            intro told htold
            split
            · exact ready_enterLoop slot htold
            · exact htold
          refine htold _ ?_
          split
          · exact ready_abort hnoted
          · exact hnoted

/-! ## Results -/

/-- The mark of an item that was not started. -/
def MarkedUnstarted (result : CommandBatchItemResult) : Prop :=
  result.outcome = .cancelled ∧ result.error = some "Command was not started"

theorem runItem_id (item : CommandBatchItem) (ended : ShellEnd) : (runItem item ended).id = item.id := by
  cases ended <;> rfl

/-- A command that was started is never marked so, however it ends. -/
theorem runItem_unmarked (item : CommandBatchItem) (ended : ShellEnd) :
    ¬ MarkedUnstarted (runItem item ended) := by
  rintro ⟨houtcome, herror⟩
  cases ended with
  | resolved result => cases houtcome
  | timeoutError result => cases houtcome
  | error message result => cases houtcome
  | cancelledError result =>
      have hmessage : boundedError "Workflow run was cancelled" = "Command was not started" :=
        Option.some.inj herror
      exact absurd hmessage (by decide)

/-- What holds at every moment of a batch. -/
structure Orderly (request : CommandBatchRequest) (st : BatchState) : Prop where
  /-- The items that were started are the first ones, in order and once each. -/
  inOrder : ∃ count ≤ request.items.length, startedItems st.log = List.range count
  /-- The slots wait for the items that were started and have not ended, once each. -/
  running : ∀ index, index ∈ st.running ↔
    index ∈ startedItems st.log ∧ index ∉ settledItems st.log
  runningOnce : st.running.Nodup
  limit : (st.running.length : Int) ≤ request.maxConcurrency
  /-- Nothing is started after the abort. -/
  quiet : st.log.Pairwise fun earlier later =>
    earlier = .aborted → ∀ index, later ≠ .started index
  /-- A batch that has not returned waits for an answer. -/
  waits : ¬ st.Returned → ∃ st', SlotStep request st st'

/-- What a batch returns. -/
structure Returns (request : CommandBatchRequest) (st : BatchState)
    (result : CommandBatchResult) : Prop where
  length : result.items.length = request.items.length
  total : result.total = request.items.length
  completed : result.completed = (startedItems st.log).length
  items : ∀ index item, request.items[index]? = some item →
    ∃ r, result.items[index]? = some r ∧ r.id = item.id ∧
      (index ∈ startedItems st.log →
        (∃ ended, BatchEvent.settled index ended ∈ st.log ∧ r = runItem item ended) ∧
          ¬ MarkedUnstarted r) ∧
      (index ∉ startedItems st.log → r = cancelledResult item)

theorem Inv.mem_claimed {request : CommandBatchRequest} {st : BatchState} (h : Inv request st)
    (index : Nat) : index ∈ startedItems st.log ↔
      index ∈ settledItems st.log ∨ index ∈ st.running := by
  rw [h.started, ← h.claimed.mem_iff, List.mem_append]

theorem Inv.claimed_nodup {request : CommandBatchRequest} {st : BatchState} (h : Inv request st) :
    (settledItems st.log ++ st.running).Nodup :=
  h.claimed.nodup_iff.2 List.nodup_range

theorem BatchRun.orderly {request : CommandBatchRequest} {st : BatchState}
    (h : BatchRun request st) (hlimit : 0 ≤ request.maxConcurrency) : Orderly request st := by
  have hinv := h.inv
  have hnodup := hinv.claimed_nodup
  refine ⟨⟨_, hinv.bounded, hinv.started⟩, fun index => ?_, (List.nodup_append.1 hnodup).2.1, ?_,
    hinv.quiet, fun hwaits => ?_⟩
  · rw [hinv.mem_claimed]
    constructor
    · intro hrunning
      exact ⟨.inr hrunning, fun hsettled =>
        (List.nodup_append.1 hnodup).2.2 index hsettled index hrunning rfl⟩
    · rintro ⟨hsettled | hrunning, hopen⟩
      · exact absurd hsettled hopen
      · exact hrunning
  · have hslots : st.running.length ≤ st.slots.length := List.length_filterMap_le _ _
    rw [hinv.slots] at hslots
    have hcount : runnerCount request ≤ request.maxConcurrency.toNat := min_le_left _ _
    omega
  · obtain ⟨state, hstate⟩ := not_forall.1 hwaits
    obtain ⟨hmem, hne⟩ := Classical.not_imp.1 hstate
    obtain ⟨slot, hslot⟩ := List.mem_iff_getElem?.1 hmem
    cases state with
    | returned => exact absurd rfl hne
    | ready => exact absurd hmem h.called
    | notifying => exact ⟨_, .notified hslot⟩
    | running index item => exact ⟨_, .settled hslot (.cancelledError none) ⟨false, false⟩⟩

theorem fillResults_getElem? {request : CommandBatchRequest} {st : BatchState} (h : Inv request st)
    {index : Nat} {item : CommandBatchItem} (hitem : request.items[index]? = some item) :
    ∃ r, (fillResults request st)[index]? = some (some r) ∧
      ((index ∉ settledItems st.log ∧ r = cancelledResult item) ∨
        ∃ ended, BatchEvent.settled index ended ∈ st.log ∧ r = runItem item ended) := by
  have hfill : ∀ known, st.results[index]? = some known → (fillResults request st)[index]? =
      some (known.or ((request.items[index]?).map cancelledResult)) := by
    intro known hknown
    rw [fillResults, List.getElem?_map, List.getElem?_zipIdx, hknown]
    simp
  rcases h.results index item hitem with ⟨hopen, hnone⟩ | ⟨ended, hmem, hsome⟩
  · refine ⟨cancelledResult item, ?_, .inl ⟨hopen, rfl⟩⟩
    rw [hfill none hnone, hitem]
    rfl
  · exact ⟨runItem item ended, hfill _ hsome, .inr ⟨ended, hmem, rfl⟩⟩

/-- A list without a hole. -/
theorem mapM_id_of_forall {α : Type} {items : List (Option α)} (h : ∀ x ∈ items, ∃ r, x = some r) :
    ∃ results : List α, items.mapM id = some results ∧ items = results.map some := by
  induction items with
  | nil => exact ⟨[], rfl, rfl⟩
  | cons x rest ih =>
      obtain ⟨r, rfl⟩ := h x List.mem_cons_self
      obtain ⟨results, hmapM, hrest⟩ := ih fun y hy => h y (List.mem_cons_of_mem _ hy)
      refine ⟨r :: results, ?_, by rw [hrest]; rfl⟩
      rw [List.mapM_cons, hmapM]
      rfl

theorem BatchRun.returns {request : CommandBatchRequest} {st : BatchState}
    (h : BatchRun request st) (hreturned : st.Returned) :
    ∃ result, batchResult request st = some result ∧ Returns request st result := by
  have hinv := h.inv
  have hidle : st.running = [] :=
    List.filterMap_eq_nil_iff.2 fun slot hslot => by rw [hreturned slot hslot]; rfl
  have hended : ∀ index, index ∈ startedItems st.log ↔ index ∈ settledItems st.log := by
    intro index
    rw [hinv.mem_claimed, hidle]
    exact or_iff_left List.not_mem_nil
  have hlength : (fillResults request st).length = request.items.length := by
    rw [fillResults, List.length_map, List.length_zipIdx, hinv.length]
  have hfull : ∀ x ∈ fillResults request st, ∃ r, x = some r := by
    intro x hx
    obtain ⟨index, hindex⟩ := List.mem_iff_getElem?.1 hx
    have hlt := (List.getElem?_eq_some_iff.1 hindex).1
    rw [hlength] at hlt
    obtain ⟨r, hr, -⟩ := fillResults_getElem? hinv (List.getElem?_eq_getElem hlt)
    exact ⟨r, Option.some.inj (hindex.symm.trans hr)⟩
  obtain ⟨results, hmapM, hresults⟩ := mapM_id_of_forall hfull
  refine ⟨⟨results, st.completed, request.items.length⟩, by rw [batchResult, hmapM]; rfl, ?_, rfl,
    ?_, fun index item hitem => ?_⟩
  · rw [← hlength, hresults, List.length_map]
  · have hcount := hinv.claimed.length_eq
    rw [hidle, List.append_nil, List.length_range] at hcount
    rw [hinv.started, List.length_range, ← hcount]
    exact hinv.completed
  · obtain ⟨r, hr, hcases⟩ := fillResults_getElem? hinv hitem
    rw [hresults, List.getElem?_map, Option.map_eq_some_iff] at hr
    obtain ⟨r', hget, heq⟩ := hr
    rw [Option.some.inj heq] at hget
    refine ⟨r, hget, ?_⟩
    rw [hended]
    rcases hcases with ⟨hopen, rfl⟩ | ⟨ended, hmem, rfl⟩
    · exact ⟨rfl, fun hsettled => absurd hsettled hopen, fun _ => rfl⟩
    · exact ⟨runItem_id item ended, fun _ => ⟨⟨ended, hmem, rfl⟩, runItem_unmarked item ended⟩,
        fun hopen => absurd (mem_settledItems hmem) hopen⟩

/-- Whatever order things come in, a batch is orderly, comes closer to its end with every answer,
and returns a result for each item. -/
theorem runCommandBatch_orderly {input request : CommandBatchRequest} {st : BatchState}
    (hvalid : validateCommandBatchRequest input = .ok request) (h : BatchRun request st) :
    Orderly request st ∧
      (∀ st', SlotStep request st st' → st'.weight request < st.weight request) ∧
      (st.Returned → ∃ result, batchResult request st = some result ∧
        Returns request st result) := by
  have hlimit : 1 ≤ request.maxConcurrency := by
    simp only [validateCommandBatchRequest, positiveInteger, bind_ok, require_ok, pure_ok] at hvalid
    obtain ⟨-, -, -, -, -, hrange, rfl⟩ := hvalid
    exact hrange.1
  exact ⟨h.orderly (by omega), fun st' hstep => hstep.weight_lt, h.returns⟩

def buildItem : CommandBatchItem := ⟨"build", "make", [], "/repo", 1000, 1000⟩

/-- Two items, one at a time. -/
def buildRequest : CommandBatchRequest := ⟨[buildItem, { buildItem with id := "test" }], 1⟩

/-- The callback aborts the batch and throws when the first item has ended. -/
def buildAborted : BatchState :=
  settleItem buildRequest 0 0 buildItem
    (.resolved ⟨"make", [], "/repo", "", "", some 0, none, 5⟩) ⟨true, true⟩
    (launch buildRequest false)

theorem buildAborted_orderly : Orderly buildRequest buildAborted ∧
    ∃ result, batchResult buildRequest buildAborted = some result ∧
      Returns buildRequest buildAborted result := by
  have hvalid : validateCommandBatchRequest buildRequest = .ok buildRequest := rfl
  have hrun : BatchRun buildRequest buildAborted :=
    .slot (.launched false) (.settled rfl _ _)
  have hreturned : buildAborted.Returned := by
    intro slot hslot
    exact List.mem_singleton.1 hslot
  have hall := runCommandBatch_orderly hvalid hrun
  exact ⟨hall.1, hall.2.2 hreturned⟩

end PiWorkflows.Batch
