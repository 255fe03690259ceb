import Mathlib.Algebra.Order.Group.Defs
import Mathlib.Tactic.Abel

/-!
# A stopwatch

A stopwatch adds up the time for which it runs. It is read now and then, and
`total` is what it had counted at the latest reading, so no span is in it twice.

Somebody else may measure the same activity in pieces: some that are over, and
one that runs since an anchor. `Covers` says that the pieces fit into what the
watch has counted, and it is kept by reading the watch, whenever that is done
(`Covers.read`). So what is measured of the piece that runs may be recorded at
any reading (`Covers.measured`).
-/

universe u

structure Stopwatch (T : Type u) where
  since : Option T
  total : T

namespace Stopwatch

variable {T : Type u}

/-- A watch that runs already goes on. -/
def start (now : T) (watch : Stopwatch T) : Stopwatch T :=
  { watch with since := some (watch.since.getD now) }

@[simp] theorem start_total (now : T) (watch : Stopwatch T) :
    (watch.start now).total = watch.total := rfl

section

variable [Preorder T] {watch : Stopwatch T} {now later : T}

/-- The watch was last read, or started, by then. -/
def Before (watch : Stopwatch T) (now : T) : Prop :=
  ∀ since ∈ watch.since, since ≤ now

theorem Before.mono (h : watch.Before now) (hle : now ≤ later) : watch.Before later :=
  fun since hsince => (h since hsince).trans hle

theorem Before.start (h : watch.Before now) : (watch.start now).Before now := by
  intro since hsince
  obtain rfl := Option.some.inj hsince
  cases hwatch : watch.since with
  | none => exact le_refl now
  | some t => exact h t hwatch

end

variable [AddCommGroup T]

/-- A stopwatch that has never run. -/
def new : Stopwatch T := ⟨none, 0⟩

/-- Count up to now. -/
def read (now : T) (watch : Stopwatch T) : Stopwatch T :=
  match watch.since with
  | none => watch
  | some since => ⟨some now, watch.total + (now - since)⟩

def stop (now : T) (watch : Stopwatch T) : Stopwatch T :=
  ⟨none, (watch.read now).total⟩

@[simp] theorem stop_since (now : T) (watch : Stopwatch T) : (watch.stop now).since = none := rfl

@[simp] theorem stop_total (now : T) (watch : Stopwatch T) :
    (watch.stop now).total = (watch.read now).total := rfl

variable {watch : Stopwatch T} {now later past anchor : T}

theorem read_since {t : T} (h : (watch.read now).since = some t) : t = now := by
  unfold read at h
  split at h
  · next hnone => rw [hnone] at h; cases h
  · exact (Option.some.inj h).symm

/-- A second reading at the same time counts nothing. -/
theorem read_stop (now : T) (watch : Stopwatch T) : (watch.read now).stop now = watch.stop now := by
  rw [stop, stop]
  cases hwatch : watch.since with
  | none => simp [read, hwatch]
  | some since => simp [read, hwatch]

variable [PartialOrder T]

/-- What is over, and what runs since the anchor, fit into what the watch has counted. -/
def Covers (watch : Stopwatch T) (past anchor : T) : Prop :=
  ∃ since, watch.since = some since ∧ past + (since - anchor) ≤ watch.total

theorem before_read : (watch.read now).Before now :=
  fun _ h => (read_since h).le

/-- A watch that runs already has nothing to start. -/
theorem Covers.start (h : watch.Covers past anchor) : (watch.start now).Covers past anchor := by
  obtain ⟨since, hsince, hle⟩ := h
  refine ⟨since, ?_, hle⟩
  rw [Stopwatch.start, hsince]
  rfl

/-- What is measured at a reading has been counted. -/
theorem Covers.measured (h : (watch.read now).Covers past anchor) :
    past + (now - anchor) ≤ (watch.read now).total := by
  obtain ⟨since, hsince, hle⟩ := h
  obtain rfl := read_since hsince
  exact hle

variable [IsOrderedAddMonoid T]

theorem le_read (h : watch.Before now) : watch.total ≤ (watch.read now).total := by
  unfold read
  split
  · exact le_refl _
  · next since hsince => exact le_add_of_nonneg_right (sub_nonneg.2 (h since hsince))

/-- A piece that starts with the watch, or while it runs. -/
theorem covers_start (h : watch.Before now) (hpast : past ≤ watch.total) :
    (watch.start now).Covers past now := by
  refine ⟨watch.since.getD now, rfl, ?_⟩
  have hsince : watch.since.getD now - now ≤ 0 := by
    rw [sub_nonpos]
    exact h.start _ rfl
  exact (add_le_of_nonpos_right hsince).trans hpast

theorem Covers.read (h : watch.Covers past anchor) : (watch.read now).Covers past anchor := by
  obtain ⟨since, hsince, hle⟩ := h
  rw [Stopwatch.read, hsince]
  refine ⟨now, rfl, ?_⟩
  calc past + (now - anchor) = past + (since - anchor) + (now - since) := by abel
    _ ≤ watch.total + (now - since) := by gcongr

end Stopwatch
