import Mathlib.Algebra.Order.Ring.Rat
import Mathlib.Data.List.Chain
import Mathlib.Tactic.Linarith
import Mathlib.Tactic.Ring
import PiWorkflows.Lib.Stopwatch
import PiWorkflows.State.AttemptTime

/-!
# The active time of an attempt is counted once

The claim about the recorded time is made against a stopwatch that anybody could
hold who sees the calls: it starts with the attempt, is read when the intervals are
sampled and stops when the interval is closed or the process dies. `Watched` is
the code with that watch beside it, and a rollback gives both back.

The invariant `Kept` says that what is recorded of the attempt fits into what the
watch has counted, with room for what the process could still measure of the open
interval (`Stopwatch.Covers`). An anchor may outlive the row it was made for,
since a rollback takes back the row only; but a row is inserted together with its
own anchor, so a stale one is never read.
-/

namespace PiWorkflows

open Fallible

/-! ## What the definitions do -/

section

variable {intervals intervals' : ActiveIntervals} {attemptId : String} {key : IntervalKey}
  {row : ActiveInterval}

theorem mem_openIntervals :
    (key, row) ∈ openIntervals intervals ↔ intervals.get? key = some row ∧ row.endedAt = none := by
  rw [openIntervals, List.mem_filter, Table.mem_rows, decide_eq_true_eq]

theorem openInterval_some (h : openInterval intervals attemptId = some (key, row)) :
    key.attemptId = attemptId ∧ intervals.get? key = some row ∧ row.endedAt = none := by
  have hid := List.find?_some h
  exact ⟨of_decide_eq_true hid, mem_openIntervals.1 (List.mem_of_find?_eq_some h)⟩

theorem openInterval_none (h : openInterval intervals attemptId = none)
    (hget : intervals.get? key = some row) (hid : key.attemptId = attemptId) : row.endedAt ≠ none := by
  intro hopen
  have hnone := List.find?_eq_none.1 h (key, row) (mem_openIntervals.2 ⟨hget, hopen⟩)
  exact hnone (decide_eq_true hid)

theorem get?_closeIntervals (p : String → Bool) (intervals : ActiveIntervals) (key : IntervalKey) :
    (closeIntervals p intervals).get? key = (intervals.get? key).map fun row =>
      if decide (row.endedAt = none) && p key.attemptId then
        { row with endedAt := some row.observedAt } else row := by
  rw [closeIntervals, Table.get?_updateWhere]

/-- No row is lost, and what is recorded of an interval only grows. -/
def IntervalsExtend (intervals intervals' : ActiveIntervals) : Prop :=
  ∀ key row, intervals.get? key = some row →
    ∃ row', intervals'.get? key = some row' ∧ row.elapsedMs ≤ row'.elapsedMs

theorem IntervalsExtend.refl (intervals : ActiveIntervals) : IntervalsExtend intervals intervals :=
  fun _ row h => ⟨row, h, le_refl _⟩

theorem IntervalsExtend.trans {intervals'' : ActiveIntervals} (h : IntervalsExtend intervals intervals')
    (h' : IntervalsExtend intervals' intervals'') : IntervalsExtend intervals intervals'' := by
  intro key row hrow
  obtain ⟨row', hrow', hle⟩ := h key row hrow
  obtain ⟨row'', hrow'', hle'⟩ := h' key row' hrow'
  exact ⟨row'', hrow'', hle.trans hle'⟩

theorem extends_close (p : String → Bool) : IntervalsExtend intervals (closeIntervals p intervals) := by
  intro key row hrow
  rw [get?_closeIntervals, hrow]
  refine ⟨_, rfl, ?_⟩
  dsimp only
  split <;> exact le_refl _

theorem extends_insert? (h : intervals.insert? key row = some intervals') :
    IntervalsExtend intervals intervals' := by
  obtain ⟨hfree, hget⟩ := Table.get?_of_insert? h
  intro key' row' hrow'
  refine ⟨row', ?_, le_refl _⟩
  rw [hget, if_neg, hrow']
  rintro rfl
  rw [hfree] at hrow'
  cases hrow'

/-- The row of an interval that was sampled. -/
def ActiveInterval.sampled (row : ActiveInterval) (clock : ClockReading) (anchor : ℚ) :
    ActiveInterval :=
  { row with
    elapsedMs := max (max row.elapsedMs (clock.monotonic - anchor)) 0, observedAt := clock.now }

/-- `sampleInterval` of an open row needs the anchor of the row and changes nothing else. -/
theorem sampleInterval_ok {time : AttemptTime} {clock : ClockReading}
    (h : time.sampleInterval intervals (key, row) clock = .ok intervals')
    (hget : intervals.get? key = some row) (hopen : row.endedAt = none) :
    ∃ anchor, time.anchors.lookup key = some anchor ∧
      (∀ k, intervals'.get? k =
        if k = key then some (row.sampled clock anchor) else intervals.get? k) ∧
      ∀ id, totalElapsed intervals' id = totalElapsed intervals id +
        if key.attemptId = id then (row.sampled clock anchor).elapsedMs - row.elapsedMs else 0 := by
  simp only [AttemptTime.sampleInterval, bind_ok, orThrow_ok, pure_ok] at h
  obtain ⟨anchor, hanchor, rfl⟩ := h
  refine ⟨anchor, hanchor, fun k => ?_, fun id => ?_⟩
  · rw [Table.get?_updateWhere]
    by_cases hk : k = key
    · rw [hk, hget, Option.map_some, if_pos (decide_eq_true ⟨rfl, hopen⟩), if_pos rfl]
      rfl
    · rw [if_neg hk]
      cases intervals.get? k with
      | none => rfl
      | some other => rw [Option.map_some, if_neg (by simp [hk])]
  · have hsum := Table.sum_modify_at (g := fun k r => if k.1 = id then r.elapsedMs else 0)
      (f := fun k r => if decide (k = key ∧ r.endedAt = none) then { r with
        elapsedMs := max (max row.elapsedMs (clock.monotonic - anchor)) 0
        observedAt := clock.now } else r) hget ?_
    · rw [totalElapsed, Table.updateWhere, hsum, if_pos (decide_eq_true ⟨rfl, hopen⟩),
        totalElapsed]
      split
      · rw [ActiveInterval.sampled]
        ring
      · ring
    · intro k' r' hne
      exact if_neg (by simp [hne])

end

/-! ## The watch beside the code -/

/-- The code, and a watch on one attempt with what it said when the surrounding
transaction began. -/
structure Watched where
  time : AttemptTime
  watch : Stopwatch ℚ := .new
  savedWatch : Stopwatch ℚ := .new

section

variable (runIdOf : String → Option String) (attemptId : String)

/-- What an accepted call is for the watch. -/
def watchCall (now : ℚ) : AttemptTime.Call → Stopwatch ℚ → Stopwatch ℚ
  | .start target => if target = attemptId then .start now else id
  | .sample => .read now
  | .stop target | .closeAttemptTime target => if target = attemptId then .stop now else id
  | .closeRunTime runId => if runIdOf attemptId = some runId then .stop now else id
  | .recover => .stop now

def Watched.step (w : Watched) (event : TimeEvent) : Except String Watched := do
  let time ← w.time.step runIdOf event
  let now := event.clock.monotonic
  let rolledBack := if w.time.saved.isSome then w.savedWatch else w.watch
  pure <|
    match event.action with
    | .call call =>
        match w.time.perform runIdOf event.clock call with
        | .ok _ => { w with time, watch := watchCall runIdOf attemptId now call w.watch }
        | .error _ => { w with time, watch := rolledBack }
    | .begin => { time, watch := w.watch, savedWatch := w.watch }
    | .commit => { w with time }
    | .rollback => { w with time, watch := rolledBack }
    | .crash => { w with time, watch := rolledBack.stop now }

/-- The watch follows the code and does not interfere. -/
theorem watched_time (w : Watched) (events : List TimeEvent) :
    (Trace.served (Watched.step runIdOf attemptId) w events).time =
      Trace.served (AttemptTime.step runIdOf) w.time events := by
  induction events generalizing w with
  | nil => rfl
  | cons event rest ih =>
      rw [Trace.served_cons, Trace.served_cons, ih]
      congr 1
      rw [Trace.serve, Trace.serve, Watched.step]
      cases w.time.step runIdOf event with
      | error message => rfl
      | ok time =>
          obtain ⟨action, clock⟩ := event
          cases action with
          | call call =>
              dsimp only [bind, Except.bind, pure, Except.pure]
              cases w.time.perform runIdOf clock call <;> rfl
          | begin => rfl
          | commit => rfl
          | rollback => rfl
          | crash => rfl

end

/-! ## The invariant -/

/-- What holds of a table, the anchors and the watch when it is `now`. -/
structure Kept (attemptId : String) (anchors : List (IntervalKey × ℚ)) (now : ℚ)
    (intervals : ActiveIntervals) (watch : Stopwatch ℚ) : Prop where
  before : watch.Before now
  total : totalElapsed intervals attemptId ≤ watch.total
  nonneg : ∀ key row, intervals.get? key = some row → 0 ≤ row.elapsedMs
  oneOpen : ∀ n m row row', intervals.get? ⟨attemptId, n⟩ = some row → row.endedAt = none →
    intervals.get? ⟨attemptId, m⟩ = some row' → row'.endedAt = none → n = m
  covered : ∀ n row anchor, intervals.get? ⟨attemptId, n⟩ = some row → row.endedAt = none →
    anchors.lookup ⟨attemptId, n⟩ = some anchor →
      watch.Covers (totalElapsed intervals attemptId - row.elapsedMs) anchor

section

variable {attemptId : String} {anchors anchors' : List (IntervalKey × ℚ)} {now later : ℚ}
  {intervals intervals' : ActiveIntervals} {watch : Stopwatch ℚ} {key : IntervalKey}
  {row : ActiveInterval}

theorem Kept.mono (h : Kept attemptId anchors now intervals watch) (hle : now ≤ later) :
    Kept attemptId anchors later intervals watch :=
  { h with before := h.before.mono hle }

theorem Kept.anchors_mono (h : Kept attemptId anchors now intervals watch)
    (hsub : ∀ key row anchor, intervals.get? key = some row →
      anchors'.lookup key = some anchor → anchors.lookup key = some anchor) :
    Kept attemptId anchors' now intervals watch :=
  { h with covered := fun n row anchor hget hopen hanchor =>
      h.covered n row anchor hget hopen (hsub _ row anchor hget hanchor) }

theorem Kept.read (h : Kept attemptId anchors now intervals watch) :
    Kept attemptId anchors now intervals (watch.read now) :=
  { h with
    before := Stopwatch.before_read
    total := h.total.trans (Stopwatch.le_read h.before)
    covered := fun n row anchor hget hopen hanchor =>
      (h.covered n row anchor hget hopen hanchor).read }

/-- A table without open intervals of the attempt. -/
theorem Kept.stopped (h : Kept attemptId anchors now intervals watch)
    (hclosed : ∀ n row, intervals.get? ⟨attemptId, n⟩ = some row → row.endedAt ≠ none) :
    Kept attemptId anchors later intervals (watch.stop now) :=
  { h with
    before := fun _ h => nomatch h
    total := h.total.trans (Stopwatch.le_read h.before)
    covered := fun n row _ hget hopen => absurd hopen (hclosed n row hget) }

theorem totalElapsed_close (p : String → Bool) :
    totalElapsed (closeIntervals p intervals) attemptId = totalElapsed intervals attemptId := by
  refine Table.sum_modify_of_eq
    (g := fun (key : IntervalKey) (row : ActiveInterval) =>
      if key.attemptId = attemptId then row.elapsedMs else 0) fun key row _ => ?_
  dsimp only
  split
  · split <;> rfl
  · rfl

theorem Kept.close (p : String → Bool) (h : Kept attemptId anchors now intervals watch) :
    Kept attemptId anchors now (closeIntervals p intervals) watch := by
  have hrow : ∀ key row, (closeIntervals p intervals).get? key = some row →
      ∃ row', intervals.get? key = some row' ∧ row'.elapsedMs = row.elapsedMs ∧
        (row.endedAt = none → row'.endedAt = none) := by
    intro key row hget
    rw [get?_closeIntervals] at hget
    obtain ⟨row', hget', rfl⟩ := Option.map_eq_some_iff.1 hget
    refine ⟨row', hget', ?_⟩
    split
    · exact ⟨rfl, fun hopen => nomatch hopen⟩
    · exact ⟨rfl, id⟩
  constructor
  · exact h.before
  · rw [totalElapsed_close]
    exact h.total
  · intro key row hget
    obtain ⟨row', hget', helapsed, -⟩ := hrow key row hget
    rw [← helapsed]
    exact h.nonneg key row' hget'
  · intro n m row row' hn hopen hm hopen'
    obtain ⟨_, hn, -, hback⟩ := hrow _ _ hn
    obtain ⟨_, hm, -, hback'⟩ := hrow _ _ hm
    exact h.oneOpen n m _ _ hn (hback hopen) hm (hback' hopen')
  · intro n row anchor hget hopen hanchor
    obtain ⟨row', hget', helapsed, hback⟩ := hrow _ _ hget
    rw [totalElapsed_close, ← helapsed]
    exact h.covered n row' anchor hget' (hback hopen) hanchor

/-- The intervals of the attempt are closed, and so is the watch. -/
theorem Kept.close_stop {p : String → Bool} (h : Kept attemptId anchors now intervals watch)
    (hp : p attemptId = true) :
    Kept attemptId anchors later (closeIntervals p intervals) (watch.stop now) := by
  refine (h.close p).stopped fun n row hget hopen => ?_
  rw [get?_closeIntervals] at hget
  obtain ⟨row', -, rfl⟩ := Option.map_eq_some_iff.1 hget
  split at hopen
  · cases hopen
  · next hnot => exact hnot (by rw [hp, Bool.and_true]; exact decide_eq_true hopen)

/-- An interval is sampled, and where it is one of the attempt the watch is read. -/
theorem Kept.sample {time : AttemptTime} {clock : ClockReading}
    (h : Kept attemptId time.anchors clock.monotonic intervals watch)
    (hread : key.attemptId = attemptId →
      ∃ unread : Stopwatch ℚ, watch = unread.read clock.monotonic)
    (hsample : time.sampleInterval intervals (key, row) clock = .ok intervals')
    (hget : intervals.get? key = some row) (hopen : row.endedAt = none) :
    Kept attemptId time.anchors clock.monotonic intervals' watch ∧
      IntervalsExtend intervals intervals' ∧ ∀ k, k ≠ key → intervals'.get? k = intervals.get? k := by
  obtain ⟨anchor, hanchor, hafter, htotal⟩ := sampleInterval_ok hsample hget hopen
  have hgrow : row.elapsedMs ≤ (row.sampled clock anchor).elapsedMs :=
    (le_max_left _ _).trans (le_max_left _ _)
  have hrow : ∀ k r, intervals'.get? k = some r → (k = key ∧ r = row.sampled clock anchor) ∨
      k ≠ key ∧ intervals.get? k = some r := by
    intro k r hk
    rw [hafter] at hk
    split at hk
    · next heq => exact .inl ⟨heq, (Option.some.inj hk).symm⟩
    · next hne => exact .inr ⟨hne, hk⟩
  refine ⟨?_, ?_, fun k hk => by rw [hafter, if_neg hk]⟩
  · constructor
    · exact h.before
    · -- The attempt measures nothing that the watch has not counted.
      rw [htotal]
      split
      · next hid =>
          obtain ⟨id, n⟩ := key
          obtain rfl : id = attemptId := hid
          have hsum := h.total
          have hnonneg := h.nonneg _ _ hget
          obtain ⟨unread, rfl⟩ := hread rfl
          have hmeasured := (h.covered n row anchor hget hopen hanchor).measured
          have hmax : (row.sampled clock anchor).elapsedMs ≤
              (unread.read clock.monotonic).total - totalElapsed intervals id + row.elapsedMs := by
            refine max_le (max_le ?_ ?_) ?_ <;> linarith
          linarith
      · rw [add_zero]
        exact h.total
    · intro k r hk
      rcases hrow k r hk with ⟨-, rfl⟩ | ⟨-, hk⟩
      · exact le_max_right _ _
      · exact h.nonneg k r hk
    · have hback : ∀ n r, intervals'.get? ⟨attemptId, n⟩ = some r → r.endedAt = none →
          ∃ r', intervals.get? ⟨attemptId, n⟩ = some r' ∧ r'.endedAt = none := by
        intro n r hn hr
        rcases hrow _ _ hn with ⟨heq, -⟩ | ⟨-, hn⟩
        · exact ⟨row, heq ▸ hget, hopen⟩
        · exact ⟨r, hn, hr⟩
      intro n m r r' hn hr hm hr'
      obtain ⟨_, hn, hr⟩ := hback n r hn hr
      obtain ⟨_, hm, hr'⟩ := hback m r' hm hr'
      exact h.oneOpen n m _ _ hn hr hm hr'
    · intro n r x hn hr hx
      rcases hrow _ _ hn with ⟨rfl, rfl⟩ | ⟨hne, hn⟩
      · rw [htotal, if_pos rfl]
        have hcovered := h.covered n row x hget hopen hx
        rwa [show totalElapsed intervals attemptId + ((row.sampled clock anchor).elapsedMs -
          row.elapsedMs) - (row.sampled clock anchor).elapsedMs =
            totalElapsed intervals attemptId - row.elapsedMs by ring]
      · rw [htotal, if_neg, add_zero]
        · exact h.covered n r x hn hr hx
        · -- Another open interval would be one of another attempt.
          intro hid
          obtain ⟨id, m⟩ := key
          obtain rfl : id = attemptId := hid
          exact hne (by rw [h.oneOpen n m r row hn hr hget hopen])
  · intro k r hk
    by_cases heq : k = key
    · obtain rfl := Option.some.inj ((heq ▸ hk).symm.trans hget)
      exact ⟨_, by rw [hafter, if_pos heq], hgrow⟩
    · exact ⟨r, by rw [hafter, if_neg heq, hk], le_refl _⟩

end

/-! ## Calls -/

/-- What a call leaves behind, whatever the surrounding transaction comes to. -/
structure Performs (attemptId : String) (now : ℚ) (watch : Stopwatch ℚ)
    (time time' : AttemptTime) : Prop where
  kept : Kept attemptId time'.anchors now time'.intervals watch
  grows : IntervalsExtend time.intervals time'.intervals
  saved : time'.saved = time.saved
  anchors : ∀ key row anchor, time.intervals.get? key = some row →
    time'.anchors.lookup key = some anchor → time.anchors.lookup key = some anchor

section

variable {runIdOf : String → Option String} {attemptId : String} {time time' : AttemptTime}
  {clock : ClockReading} {watch : Stopwatch ℚ}

theorem Kept.start_call {target : String}
    (h : Kept attemptId time.anchors clock.monotonic time.intervals watch)
    (hstart : time.start runIdOf target clock = .ok time') :
    Performs attemptId clock.monotonic
      (watchCall runIdOf attemptId clock.monotonic (.start target) watch) time time' := by
  unfold AttemptTime.start at hstart
  split at hstart
  · next interval hinterval =>
      obtain ⟨key, row⟩ := interval
      split at hstart
      · cases hstart
        refine ⟨?_, .refl _, rfl, fun _ _ _ _ h => h⟩
        rw [watchCall]
        split
        · exact { h with
            before := h.before.start
            total := h.total
            covered := fun n row anchor hget hopen hanchor =>
              (h.covered n row anchor hget hopen hanchor).start }
        · exact h
      · cases hstart
  · next hnone =>
      simp only [bind_ok, require_ok, orThrow_ok, pure_ok] at hstart
      obtain ⟨_, -, intervals, hinsert, rfl⟩ := hstart
      obtain ⟨hfree, hget⟩ := Table.get?_of_insert? hinsert
      have htotal : totalElapsed intervals attemptId = totalElapsed time.intervals attemptId := by
        have hsum := Table.sum_insert? (g := fun (key : IntervalKey) (row : ActiveInterval) =>
          if key.attemptId = attemptId then row.elapsedMs else 0) hinsert
        rw [totalElapsed, hsum]
        dsimp only
        rw [ite_self, add_zero, totalElapsed]
      have hkey : ∀ key row anchor, time.intervals.get? key = some row →
          (Assoc.setKey ⟨target, nextIntervalNumber time.intervals target⟩ clock.monotonic
            time.anchors).lookup key = some anchor → time.anchors.lookup key = some anchor := by
        intro key row anchor hold hanchor
        rw [Assoc.lookup_setKey, if_neg] at hanchor
        · exact hanchor
        · rintro rfl
          rw [hfree] at hold
          cases hold
      have hold : ∀ n row, intervals.get? ⟨attemptId, n⟩ = some row → row.endedAt = none →
          (target = attemptId ∧ n = nextIntervalNumber time.intervals target ∧ row.elapsedMs = 0) ∨
            target ≠ attemptId ∧ time.intervals.get? ⟨attemptId, n⟩ = some row := by
        intro n row hn hopen
        rw [hget] at hn
        split at hn
        · next heq =>
            obtain ⟨rfl, rfl⟩ := IntervalKey.mk.inj heq
            obtain rfl := Option.some.inj hn
            exact .inl ⟨rfl, rfl, rfl⟩
        · refine .inr ⟨?_, hn⟩
          rintro rfl
          exact openInterval_none hnone hn rfl hopen
      refine ⟨?_, extends_insert? hinsert, rfl, hkey⟩
      rw [watchCall]
      constructor
      · split
        · exact h.before.start
        · exact h.before
      · rw [htotal]
        split <;> exact h.total
      · intro key row hrow
        rw [hget] at hrow
        split at hrow
        · obtain rfl := Option.some.inj hrow
          exact le_refl _
        · exact h.nonneg key row hrow
      · intro n m row row' hn hopen hm hopen'
        rcases hold n row hn hopen with ⟨htarget, rfl, -⟩ | ⟨htarget, hn⟩
        · rcases hold m row' hm hopen' with ⟨-, rfl, -⟩ | ⟨hne, -⟩
          · rfl
          · exact absurd htarget hne
        · rcases hold m row' hm hopen' with ⟨heq, -, -⟩ | ⟨-, hm⟩
          · exact absurd heq htarget
          · exact h.oneOpen n m row row' hn hopen hm hopen'
      · intro n row anchor hn hopen hanchor
        rw [htotal]
        rcases hold n row hn hopen with ⟨rfl, rfl, helapsed⟩ | ⟨htarget, hn⟩
        · rw [Assoc.lookup_setKey, if_pos rfl] at hanchor
          obtain rfl := Option.some.inj hanchor
          rw [if_pos rfl, helapsed, sub_zero]
          exact Stopwatch.covers_start h.before h.total
        · rw [if_neg htarget]
          exact h.covered n row anchor hn hopen (hkey _ row anchor hn hanchor)

/-- All intervals that are open are sampled, one after another. -/
theorem Kept.sampleAll {intervals intervals' : ActiveIntervals}
    {active : List (IntervalKey × ActiveInterval)} (hnodup : (active.map Prod.fst).Nodup)
    (h : Kept attemptId time.anchors clock.monotonic intervals (watch.read clock.monotonic))
    (hactive : ∀ e ∈ active, intervals.get? e.1 = some e.2 ∧ e.2.endedAt = none)
    (hfold : active.foldlM (fun intervals interval =>
      time.sampleInterval intervals interval clock) intervals = .ok intervals') :
    Kept attemptId time.anchors clock.monotonic intervals' (watch.read clock.monotonic) ∧
      IntervalsExtend intervals intervals' := by
  induction active generalizing intervals with
  | nil =>
      obtain rfl := pure_ok.1 hfold
      exact ⟨h, .refl _⟩
  | cons e rest ih =>
      rw [List.foldlM_cons, bind_ok] at hfold
      obtain ⟨sampled, hsample, hrest⟩ := hfold
      rw [List.map_cons, List.nodup_cons] at hnodup
      obtain ⟨hget, hopen⟩ := hactive e List.mem_cons_self
      obtain ⟨hkept, hgrows, hsame⟩ := h.sample (fun _ => ⟨watch, rfl⟩) hsample hget hopen
      obtain ⟨hkept', hgrows'⟩ := ih hnodup.2 hkept (fun other hother => by
        obtain ⟨hother', hopen'⟩ := hactive other (List.mem_cons_of_mem e hother)
        refine ⟨?_, hopen'⟩
        rw [hsame, hother']
        intro heq
        exact hnodup.1 (heq ▸ List.mem_map_of_mem hother)) hrest
      exact ⟨hkept', hgrows.trans hgrows'⟩

theorem lookup_of_filter {p : IntervalKey × ℚ → Bool} {anchors : List (IntervalKey × ℚ)}
    {key : IntervalKey} {anchor : ℚ} (hp : ∀ e e' : IntervalKey × ℚ, e.1 = e'.1 → p e = p e')
    (h : (anchors.filter p).lookup key = some anchor) : anchors.lookup key = some anchor := by
  induction anchors with
  | nil => exact h
  | cons e rest ih =>
      obtain ⟨key', anchor'⟩ := e
      rw [Assoc.lookup_cons_eq]
      rw [List.filter_cons] at h
      split at h
      · rw [Assoc.lookup_cons_eq] at h
        split
        · next heq => rwa [if_pos heq] at h
        · next hne =>
            rw [if_neg hne] at h
            exact ih h
      · next hnot =>
          split
          · next heq =>
              have hmem := Assoc.mem_of_lookup h
              rw [List.mem_filter, hp (key, anchor) (key', anchor') heq] at hmem
              exact absurd hmem.2 hnot
          · exact ih h

theorem Kept.sample_call (h : Kept attemptId time.anchors clock.monotonic time.intervals watch)
    (hsample : time.sample clock = .ok time') :
    Performs attemptId clock.monotonic (watch.read clock.monotonic) time time' := by
  simp only [AttemptTime.sample, bind_ok, pure_ok] at hsample
  obtain ⟨intervals, hfold, rfl⟩ := hsample
  have hnodup : ((openIntervals time.intervals).map Prod.fst).Nodup :=
    time.intervals.nodup.sublist (List.filter_sublist.map Prod.fst)
  obtain ⟨hkept, hgrows⟩ := h.read.sampleAll hnodup (fun e he => mem_openIntervals.1 he) hfold
  have hanchors : ∀ key anchor, (if time.saved.isSome then time.anchors else
      time.anchors.filter fun anchor =>
        decide (anchor.1 ∈ (openIntervals time.intervals).map Prod.fst)).lookup key = some anchor →
      time.anchors.lookup key = some anchor := by
    intro key anchor hanchor
    split at hanchor
    · exact hanchor
    · exact lookup_of_filter (fun e e' heq => by rw [heq]) hanchor
  exact ⟨hkept.anchors_mono fun key _ anchor _ => hanchors key anchor, hgrows, rfl,
    fun key _ anchor _ => hanchors key anchor⟩

theorem Kept.stop_call {target : String}
    (h : Kept attemptId time.anchors clock.monotonic time.intervals watch)
    (hstop : time.stop target clock = .ok time') :
    Performs attemptId clock.monotonic
      (watchCall runIdOf attemptId clock.monotonic (.stop target) watch) time time' := by
  rw [watchCall]
  unfold AttemptTime.stop at hstop
  split at hstop
  · next hnone =>
      cases hstop
      refine ⟨?_, .refl _, rfl, fun _ _ _ _ h => h⟩
      split
      · next heq =>
          exact h.stopped fun n row hget => openInterval_none hnone hget heq.symm
      · exact h
  · next interval hsome =>
      obtain ⟨key, row⟩ := interval
      obtain ⟨htarget, hget, hopen⟩ := openInterval_some hsome
      simp only [bind_ok, pure_ok] at hstop
      obtain ⟨intervals, hsample, rfl⟩ := hstop
      have hother : target ≠ attemptId → Kept attemptId time.anchors clock.monotonic intervals watch ∧
          IntervalsExtend time.intervals intervals := by
        intro hne
        have hread : key.attemptId = attemptId →
            ∃ unread : Stopwatch ℚ, watch = unread.read clock.monotonic := by
          intro hid
          exact absurd (htarget.symm.trans hid) hne
        obtain ⟨hkept, hgrows, -⟩ := h.sample hread hsample hget hopen
        exact ⟨hkept, hgrows⟩
      split
      · next heq =>
          obtain ⟨hkept, hgrows, -⟩ :=
            h.read.sample (fun _ => ⟨watch, rfl⟩) hsample hget hopen
          refine ⟨?_, hgrows.trans (extends_close _), rfl, fun _ _ _ _ h => h⟩
          rw [← Stopwatch.read_stop]
          exact hkept.close_stop (p := fun id => decide (id = target)) (decide_eq_true heq.symm)
      · next hne =>
          obtain ⟨hkept, hgrows⟩ := hother hne
          exact ⟨hkept.close fun id => decide (id = target), hgrows.trans (extends_close _), rfl,
            fun _ _ _ _ h => h⟩

/-- A call that closes intervals, those of the attempt or others. -/
theorem Kept.close_call {p : String → Bool}
    (h : Kept attemptId time.anchors clock.monotonic time.intervals watch) :
    Performs attemptId clock.monotonic
      (if p attemptId then watch.stop clock.monotonic else watch) time
      { time with intervals := closeIntervals p time.intervals } := by
  refine ⟨?_, extends_close p, rfl, fun _ _ _ _ h => h⟩
  split
  · next hp => exact h.close_stop hp
  · exact h.close p

theorem Kept.perform {call : AttemptTime.Call}
    (h : Kept attemptId time.anchors clock.monotonic time.intervals watch)
    (hcall : time.perform runIdOf clock call = .ok time') :
    Performs attemptId clock.monotonic (watchCall runIdOf attemptId clock.monotonic call watch)
      time time' := by
  cases call with
  | start target => exact h.start_call hcall
  | sample => exact h.sample_call hcall
  | stop target => exact h.stop_call hcall
  | closeAttemptTime target =>
      cases hcall
      have hclose := h.close_call (p := fun id => decide (id = target))
      rw [watchCall]
      simp only [decide_eq_true_eq, eq_comm (a := attemptId)] at hclose
      split
      · next heq => rwa [if_pos heq] at hclose
      · next hne => rwa [if_neg hne] at hclose
  | closeRunTime runId =>
      cases hcall
      have hclose := h.close_call (p := fun id => decide (runIdOf id = some runId))
      rw [watchCall]
      simp only [decide_eq_true_eq] at hclose
      split
      · next heq => rwa [if_pos heq] at hclose
      · next hne => rwa [if_neg hne] at hclose
  | recover =>
      cases hcall
      have hclose := h.close_call (p := fun _ => true)
      rw [if_pos rfl] at hclose
      have hnone : ∀ key row anchor, time.intervals.get? key = some row →
          time.recover.anchors.lookup key = some anchor → time.anchors.lookup key = some anchor :=
        fun _ _ _ _ h => nomatch h
      exact ⟨hclose.kept.anchors_mono (fun _ _ _ _ h => nomatch h), hclose.grows, rfl, hnone⟩

end

/-! ## Runs -/

/-- The invariant, of the table as it is and as a rollback would leave it. -/
structure Recorded (attemptId : String) (now : ℚ) (w : Watched) : Prop where
  current : Kept attemptId w.time.anchors now w.time.intervals w.watch
  saved : ∀ intervals, w.time.saved = some intervals →
    Kept attemptId w.time.anchors now intervals w.savedWatch ∧ IntervalsExtend intervals w.time.intervals

section

variable {runIdOf : String → Option String} {attemptId : String} {w w' : Watched}
  {event : TimeEvent} {now later : ℚ}

theorem Recorded.mono (h : Recorded attemptId now w) (hle : now ≤ later) :
    Recorded attemptId later w where
  current := h.current.mono hle
  saved intervals hsaved := ⟨(h.saved intervals hsaved).1.mono hle, (h.saved intervals hsaved).2⟩

theorem Recorded.durable (h : Recorded attemptId now w) :
    Kept attemptId w.time.anchors now w.time.durable
        (if w.time.saved.isSome then w.savedWatch else w.watch) ∧
      IntervalsExtend w.time.durable w.time.intervals := by
  rw [AttemptTime.durable]
  cases hsaved : w.time.saved with
  | none => exact ⟨h.current, .refl _⟩
  | some intervals => exact h.saved intervals hsaved

/-- A process that has crashed leaves what was committed, and nothing runs. -/
theorem Kept.crash {anchors : List (IntervalKey × ℚ)} {intervals : ActiveIntervals}
    {watch : Stopwatch ℚ} (h : Kept attemptId anchors now intervals watch) :
    Kept attemptId [] later intervals (watch.stop now) :=
  { h with
    before := fun _ h => nomatch h
    total := h.total.trans (Stopwatch.le_read h.before)
    covered := fun _ _ _ _ _ hanchor => nomatch hanchor }

theorem Recorded.call {call : AttemptTime.Call} {clock : ClockReading} {time : AttemptTime}
    (h : Recorded attemptId clock.monotonic w)
    (hcall : w.time.perform runIdOf clock call = .ok time) :
    Recorded attemptId clock.monotonic
        { w with time, watch := watchCall runIdOf attemptId clock.monotonic call w.watch } ∧
      IntervalsExtend w.time.durable time.durable := by
  have hperforms := h.current.perform hcall
  refine ⟨⟨hperforms.kept, fun intervals hsaved => ?_⟩, ?_⟩
  · obtain ⟨hkept, hgrows⟩ := h.saved intervals (hperforms.saved.symm.trans hsaved)
    refine ⟨hkept.anchors_mono fun key row anchor hget hanchor => ?_,
      hgrows.trans hperforms.grows⟩
    obtain ⟨row', hget', -⟩ := hgrows key row hget
    exact hperforms.anchors key row' anchor hget' hanchor
  · rw [AttemptTime.durable, AttemptTime.durable, hperforms.saved]
    cases w.time.saved with
    | none => exact hperforms.grows
    | some intervals => exact .refl _

/-- What one event leaves, at its own time, or at any time if the process is gone. -/
theorem Recorded.step (h : Recorded attemptId event.clock.monotonic w)
    (hstep : w.step runIdOf attemptId event = .ok w') :
    (∀ now, event.action = .crash ∨ now = event.clock.monotonic → Recorded attemptId now w') ∧
      IntervalsExtend w.time.durable w'.time.durable := by
  obtain ⟨action, clock⟩ := event
  obtain ⟨hdurable, hgrows⟩ := h.durable
  simp only [Watched.step, bind_ok, pure_ok] at hstep
  obtain ⟨time, htime, rfl⟩ := hstep
  have hat : ∀ {w' : Watched}, Recorded attemptId clock.monotonic w' → action ≠ .crash →
      ∀ now, action = .crash ∨ now = clock.monotonic → Recorded attemptId now w' := by
    rintro w' hw' hne now (hcrash | rfl)
    · exact absurd hcrash hne
    · exact hw'
  cases action with
  | call call =>
      simp only [AttemptTime.step] at htime
      cases hcall : w.time.perform runIdOf clock call with
      | ok time' =>
          simp only [hcall, Except.ok.injEq] at htime ⊢
          subst htime
          obtain ⟨hrecorded, hextends⟩ := h.call hcall
          exact ⟨hat hrecorded (by rintro ⟨⟩), hextends⟩
      | error message =>
          simp only [hcall] at htime ⊢
          split at htime
          · obtain rfl := Except.ok.inj htime
            exact ⟨hat ⟨hdurable, by rintro _ ⟨⟩⟩ (by rintro ⟨⟩), .refl _⟩
          · cases htime
  | begin =>
      simp only [AttemptTime.step, bind_ok, require_ok, pure_ok] at htime
      obtain ⟨_, hnone, rfl⟩ := htime
      refine ⟨hat ⟨h.current, fun intervals hsaved => ?_⟩ (by rintro ⟨⟩), hgrows⟩
      obtain rfl := Option.some.inj hsaved
      exact ⟨h.current, .refl _⟩
  | commit =>
      simp only [AttemptTime.step, bind_ok, require_ok, pure_ok] at htime
      obtain ⟨_, -, rfl⟩ := htime
      exact ⟨hat ⟨h.current, by rintro _ ⟨⟩⟩ (by rintro ⟨⟩), hgrows⟩
  | rollback =>
      simp only [AttemptTime.step, bind_ok, require_ok, pure_ok] at htime
      obtain ⟨_, -, rfl⟩ := htime
      exact ⟨hat ⟨hdurable, by rintro _ ⟨⟩⟩ (by rintro ⟨⟩), .refl _⟩
  | crash =>
      simp only [AttemptTime.step, Except.ok.injEq] at htime
      subst htime
      exact ⟨fun _ _ => ⟨hdurable.crash, by rintro _ ⟨⟩⟩, .refl _⟩

/-- Within a process the monotonic clock does not go back. -/
def MonotoneClock (events : List TimeEvent) : Prop :=
  events.IsChain fun e e' => e.action = .crash ∨ e.clock.monotonic ≤ e'.clock.monotonic

instance (events : List TimeEvent) : Decidable (MonotoneClock events) :=
  inferInstanceAs (Decidable (events.IsChain _))

/-- The invariant holds, at a time that the next event does not precede. -/
def Ready (attemptId : String) (events : List TimeEvent) (w : Watched) : Prop :=
  ∃ now, Recorded attemptId now w ∧ ∀ e ∈ events.head?, now ≤ e.clock.monotonic

theorem Ready.serve {rest : List TimeEvent} (hclock : MonotoneClock (event :: rest))
    (h : Ready attemptId (event :: rest) w) :
    Ready attemptId rest (Trace.serve (Watched.step runIdOf attemptId) w event) ∧
      IntervalsExtend w.time.durable
        (Trace.serve (Watched.step runIdOf attemptId) w event).time.durable := by
  obtain ⟨now, hnow, hle⟩ := h
  have hat := hnow.mono (hle event rfl)
  have hnext : ∀ e ∈ rest.head?,
      event.action = .crash ∨ event.clock.monotonic ≤ e.clock.monotonic :=
    (List.isChain_cons.1 hclock).1
  rw [Trace.serve]
  cases hstep : w.step runIdOf attemptId event with
  | ok w' =>
      obtain ⟨hafter, hgrows⟩ := hat.step hstep
      refine ⟨?_, hgrows⟩
      cases hhead : rest.head? with
      | none =>
          refine ⟨_, hafter _ (.inr rfl), fun e he => ?_⟩
          rw [hhead] at he
          cases he
      | some next =>
          have hsame : ∀ e ∈ rest.head?, e = next := fun e he =>
            (Option.some.inj (hhead.symm.trans he)).symm
          rcases hnext next hhead with hcrash | hle
          · refine ⟨next.clock.monotonic, hafter _ (.inl hcrash), fun e he => ?_⟩
            rw [hsame e he]
          · refine ⟨event.clock.monotonic, hafter _ (.inr rfl), fun e he => ?_⟩
            rw [hsame e he]
            exact hle
  | error message =>
      refine ⟨⟨_, hat, fun e he => (hnext e he).resolve_left fun hcrash => ?_⟩, .refl _⟩
      rw [Watched.step, AttemptTime.step, hcrash] at hstep
      cases hstep

variable (runIdOf) in
theorem Ready.run {before after : List TimeEvent} (hclock : MonotoneClock (before ++ after))
    (h : Ready attemptId (before ++ after) w) :
    Ready attemptId after (Trace.served (Watched.step runIdOf attemptId) w before) ∧
      IntervalsExtend w.time.durable
        (Trace.served (Watched.step runIdOf attemptId) w before).time.durable := by
  induction before generalizing w with
  | nil => exact ⟨h, .refl _⟩
  | cons event rest ih =>
      obtain ⟨hready, hgrows⟩ := h.serve hclock
      obtain ⟨hend, hgrows'⟩ := ih (List.isChain_cons.1 hclock).2 hready
      exact ⟨hend, hgrows.trans hgrows'⟩

end

/-- The real time for which an attempt was active: what the watch has counted. -/
def accountedTime (runIdOf : String → Option String) (attemptId : String) (events : List TimeEvent) :
    ℚ :=
  (Trace.served (Watched.step runIdOf attemptId) { time := { intervals := .empty } } events).watch.total

/-- The records of an attempt, whatever is called in whatever order. -/
theorem activeTime_counted (runIdOf : String → Option String) (attemptId : String)
    (before after : List TimeEvent) (hclock : MonotoneClock (before ++ after)) :
    (∀ n m row row',
      (AttemptTime.run runIdOf (before ++ after)).intervals.get? ⟨attemptId, n⟩ = some row →
      row.endedAt = none →
      (AttemptTime.run runIdOf (before ++ after)).intervals.get? ⟨attemptId, m⟩ = some row' →
      row'.endedAt = none → n = m) ∧
    (∀ n row, (AttemptTime.run runIdOf before).durable.get? ⟨attemptId, n⟩ = some row →
      ∃ row', (AttemptTime.run runIdOf (before ++ after)).durable.get? ⟨attemptId, n⟩ = some row' ∧
        row.elapsedMs ≤ row'.elapsedMs) ∧
    totalElapsed (AttemptTime.run runIdOf (before ++ after)).intervals attemptId ≤
      accountedTime runIdOf attemptId (before ++ after) := by
  have hfresh : ∀ now, Recorded attemptId now { time := { intervals := .empty } } := fun now =>
    { current := {
        before := fun _ h => nomatch h
        total := le_refl _
        nonneg := fun _ _ hget => nomatch hget
        oneOpen := fun _ _ _ _ hget => nomatch hget
        covered := fun _ _ _ hget => nomatch hget }
      saved := fun _ hsaved => nomatch hsaved }
  have hready : Ready attemptId (before ++ after) { time := { intervals := .empty } } := by
    cases hhead : (before ++ after).head? with
    | none => exact ⟨0, hfresh 0, fun e he => nomatch hhead.symm.trans he⟩
    | some next =>
        refine ⟨next.clock.monotonic, hfresh _, fun e he => ?_⟩
        obtain rfl := Option.some.inj (hhead.symm.trans he)
        exact le_refl _
  obtain ⟨hbefore, -⟩ := hready.run runIdOf hclock
  have hafter : MonotoneClock (after ++ []) := by
    rw [List.append_nil]
    exact (List.isChain_append.1 hclock).2.1
  obtain ⟨⟨now, hrecorded, -⟩, hgrows⟩ :=
    Ready.run runIdOf hafter (by rw [List.append_nil]; exact hbefore)
  rw [← Trace.served_append] at hrecorded hgrows
  have htime : ∀ events, AttemptTime.run runIdOf events = (Trace.served
      (Watched.step runIdOf attemptId) { time := { intervals := .empty } } events).time :=
    fun events =>
      (watched_time runIdOf attemptId { time := { intervals := .empty } } events).symm
  rw [htime, htime]
  refine ⟨hrecorded.current.oneOpen, fun n row hget => hgrows _ row hget, hrecorded.current.total⟩

/-- Two servers: the first crashes between a sample and the end of the turn. -/
def crashedTurn : List TimeEvent :=
  [⟨.call (.start "ask"), ⟨1000, 5⟩⟩, ⟨.call .sample, ⟨1080, 85⟩⟩, ⟨.crash, ⟨1100, 105⟩⟩,
    ⟨.call .recover, ⟨9000, 2⟩⟩, ⟨.call (.start "ask"), ⟨9000, 3⟩⟩]

/-- The second server goes on for twenty milliseconds. -/
theorem crashedTurn_counted :
    (∀ n m row row',
      (AttemptTime.run some (crashedTurn ++ [⟨.call (.stop "ask"), ⟨8000, 23⟩⟩])).intervals.get?
        ⟨"ask", n⟩ = some row → row.endedAt = none →
      (AttemptTime.run some (crashedTurn ++ [⟨.call (.stop "ask"), ⟨8000, 23⟩⟩])).intervals.get?
        ⟨"ask", m⟩ = some row' → row'.endedAt = none → n = m) ∧
    (∀ n row, (AttemptTime.run some crashedTurn).durable.get? ⟨"ask", n⟩ = some row →
      ∃ row', (AttemptTime.run some
          (crashedTurn ++ [⟨.call (.stop "ask"), ⟨8000, 23⟩⟩])).durable.get? ⟨"ask", n⟩ = some row' ∧
        row.elapsedMs ≤ row'.elapsedMs) ∧
    totalElapsed (AttemptTime.run some
        (crashedTurn ++ [⟨.call (.stop "ask"), ⟨8000, 23⟩⟩])).intervals "ask" ≤
      accountedTime some "ask" (crashedTurn ++ [⟨.call (.stop "ask"), ⟨8000, 23⟩⟩]) :=
  activeTime_counted some "ask" crashedTurn [⟨.call (.stop "ask"), ⟨8000, 23⟩⟩] (by decide)

example : totalElapsed (AttemptTime.run some
    (crashedTurn ++ [⟨.call (.stop "ask"), ⟨8000, 23⟩⟩])).intervals "ask" = 100 := by decide +kernel

end PiWorkflows
