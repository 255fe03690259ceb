import Mathlib.Data.Set.Insert
import Mathlib.Order.BooleanAlgebra.Set

/-!
# Work that may be attempted again

A task is work outside the store: the store can only write down that an attempt
at it starts and, later, how the attempt ended. If nobody writes the end down,
the attempt may or may not have happened, and whether another one may start is a
question of the kind of the task. A repeatable task is opened again, a single one
never; a foreign task is somebody else's and is not attempted at all.

A cell is the place of one task, with the attempts whose end is not written down.
Its history is the list of the attempts that were started and of those that were
given up to open the task again. `Sound` is the invariant: a history goes through
`rounds`, one start and one reopening after the other, a single task is started
once, and an attempt is live only while its task is running. -/

namespace Attempts

universe u v

variable {π : Type u} {ρ : Type v}

/-- What may be done with a task. -/
inductive Kind where
  | foreign
  | single
  | repeatable
  deriving DecidableEq

inductive Phase (ρ : Type v) where
  | ready
  | running
  | done (result : ρ)
  | closed

/-- The task will not be attempted any more. -/
def Phase.IsOver : Phase ρ → Prop
  | .ready | .running => False
  | .done _ | .closed => True

/-- A task, and how many attempts at it were started. -/
structure Task (π : Type u) (ρ : Type v) where
  payload : π
  phase : Phase ρ
  attempts : ℕ

structure Cell (π : Type u) (ρ : Type v) where
  task : Option (Task π ρ)
  live : Set ℕ

inductive Event where
  | started (kind : Kind) (number : ℕ)
  | reopened (number : ℕ)
  deriving DecidableEq

/-- What can happen to a cell, with what it adds to the history. -/
inductive Step (kind : π → Kind) : List Event → Cell π ρ → Cell π ρ → Prop
  | keep (c : Cell π ρ) : Step kind [] c c
  | order {live : Set ℕ} {payload : π} (hforeign : kind payload = .foreign) :
      Step kind [] ⟨none, live⟩ ⟨some ⟨payload, .ready, 0⟩, live⟩
  | start {live : Set ℕ} {payload : π} (hown : kind payload ≠ .foreign) :
      Step kind [.started (kind payload) 1] ⟨none, live⟩
        ⟨some ⟨payload, .running, 1⟩, insert 1 live⟩
  | again {live : Set ℕ} {payload : π} {n : ℕ} (hown : kind payload ≠ .foreign) :
      Step kind [.started (kind payload) (n + 1)] ⟨some ⟨payload, .ready, n⟩, live⟩
        ⟨some ⟨payload, .running, n + 1⟩, insert (n + 1) live⟩
  | reopen {live : Set ℕ} {payload : π} {n : ℕ} (hrepeatable : kind payload = .repeatable) :
      Step kind [.reopened n] ⟨some ⟨payload, .running, n⟩, live⟩
        ⟨some ⟨payload, .ready, n⟩, live \ {n}⟩
  | finish {live : Set ℕ} {payload : π} {n : ℕ} {phase : Phase ρ} (hover : phase.IsOver) :
      Step kind [] ⟨some ⟨payload, .running, n⟩, live⟩ ⟨some ⟨payload, phase, n⟩, live \ {n}⟩
  | abandon {live : Set ℕ} {payload : π} {n : ℕ} {phase : Phase ρ} (hover : phase.IsOver) :
      Step kind [] ⟨some ⟨payload, .ready, n⟩, live⟩ ⟨some ⟨payload, phase, n⟩, live⟩

/-! ## Rounds -/

/-- The history of a task that was opened again after each of its attempts. -/
def rounds (n : ℕ) : List Event :=
  (List.range n).flatMap fun i => [.started .repeatable (i + 1), .reopened (i + 1)]

theorem rounds_succ (n : ℕ) :
    rounds (n + 1) = rounds n ++ [.started .repeatable (n + 1)] ++ [.reopened (n + 1)] := by
  simp [rounds, List.range_succ]

/-- Before a start there are only full rounds. -/
theorem started_extends {n m : ℕ} {kind : Kind} {before : List Event}
    (h : before ++ [.started kind n] <+: rounds m) :
    kind = .repeatable ∧ ∃ k, n = k + 1 ∧ before = rounds k := by
  induction m with
  | zero => simp [rounds] at h
  | succ m ih =>
      rw [rounds_succ, List.prefix_concat_iff, List.prefix_concat_iff] at h
      rcases h with h | h | h
      · obtain ⟨-, hlast⟩ := List.append_inj' h rfl
        cases hlast
      · obtain ⟨rfl, hlast⟩ := List.append_inj' h rfl
        cases hlast
        exact ⟨rfl, m, rfl, rfl⟩
      · exact ih h

theorem reopened_mem {k m : ℕ} (h : Event.reopened k ∈ rounds m) : k ≤ m := by
  simp only [rounds, List.mem_flatMap, List.mem_range, List.mem_cons, List.not_mem_nil, or_false,
    reduceCtorEq, false_or, Event.reopened.injEq] at h
  obtain ⟨i, hi, rfl⟩ := h
  exact hi

/-! ## The invariant -/

/-- The cell, after its history. -/
inductive Sound (kind : π → Kind) : List Event → Cell π ρ → Prop
  | free : Sound kind [] ⟨none, ∅⟩
  | foreign {payload : π} {phase : Phase ρ} {n : ℕ} (hforeign : kind payload = .foreign)
      (hphase : phase = .ready ∨ phase.IsOver) : Sound kind [] ⟨some ⟨payload, phase, n⟩, ∅⟩
  | ready {payload : π} {n : ℕ} (hrepeatable : kind payload = .repeatable) :
      Sound kind (rounds n) ⟨some ⟨payload, .ready, n⟩, ∅⟩
  | running {payload : π} {m : ℕ} {live : Set ℕ} (hown : kind payload ≠ .foreign)
      (honce : kind payload = .single → m = 0) (hlive : live ⊆ {m + 1}) :
      Sound kind (rounds m ++ [.started (kind payload) (m + 1)])
        ⟨some ⟨payload, .running, m + 1⟩, live⟩
  | ended {payload : π} {phase : Phase ρ} {n m : ℕ} {events : List Event} (hover : phase.IsOver)
      (hown : kind payload ≠ .foreign) (honce : kind payload = .single → m = 0)
      (hevents : events <+: rounds m ++ [.started (kind payload) (m + 1)]) :
      Sound kind events ⟨some ⟨payload, phase, n⟩, ∅⟩

section

variable {kind : π → Kind} {events added : List Event} {c c' : Cell π ρ}

theorem Step.sound (hstep : Step kind added c c') (h : Sound kind events c) :
    Sound kind (events ++ added) c' := by
  cases hstep with
  | keep =>
      rw [List.append_nil]
      exact h
  | order hforeign =>
      cases h
      exact .foreign hforeign (.inl rfl)
  | start hown =>
      cases h
      exact .running hown (fun _ => rfl) (by simp)
  | again hown =>
      cases h with
      | foreign hforeign => exact absurd hforeign hown
      | ready hrepeatable =>
          refine .running hown (fun hsingle => ?_) (by simp)
          rw [hrepeatable] at hsingle
          cases hsingle
      | ended hover => exact hover.elim
  | reopen hrepeatable =>
      cases h with
      | foreign hforeign => rw [hforeign] at hrepeatable; cases hrepeatable
      | running hown honce hlive =>
          rw [Set.sdiff_eq_empty.2 hlive, hrepeatable, ← rounds_succ]
          exact .ready hrepeatable
      | ended hover => exact hover.elim
  | finish hover =>
      cases h with
      | foreign hforeign hphase => rcases hphase with hphase | hphase <;> cases hphase
      | running hown honce hlive =>
          rw [Set.sdiff_eq_empty.2 hlive, List.append_nil]
          exact .ended hover hown honce (List.prefix_rfl)
      | ended hrunning => exact hrunning.elim
  | abandon hover =>
      cases h with
      | foreign hforeign => exact .foreign hforeign (.inr hover)
      | ready hrepeatable =>
          rw [List.append_nil]
          refine .ended hover ?_ ?_ (List.prefix_append _ _)
          · rw [hrepeatable]
            exact fun h => by cases h
          · rw [hrepeatable]
            exact fun h => by cases h
      | ended hready => exact hready.elim

/-- Where a history stands. -/
theorem Sound.rounds (h : Sound kind events c) :
    ∃ m k, (k = .single → m = 0) ∧ events <+: rounds m ++ [.started k (m + 1)] := by
  cases h with
  | free => exact ⟨0, .single, fun _ => rfl, List.nil_prefix⟩
  | foreign => exact ⟨0, .single, fun _ => rfl, List.nil_prefix⟩
  | ready => exact ⟨_, .repeatable, Kind.noConfusion, List.prefix_append _ _⟩
  | running hown honce => exact ⟨_, _, honce, List.prefix_rfl⟩
  | ended hover hown honce hevents => exact ⟨_, _, honce, hevents⟩

/-- The start of a single task is all of its history. -/
theorem Sound.started_once {n : ℕ} (h : Sound kind events c)
    (hstarted : Event.started .single n ∈ events) : events = [.started .single n] := by
  obtain ⟨m, k, honce, hpre⟩ := h.rounds
  have hnot : ∀ m, Event.started .single n ∉ Attempts.rounds m := by simp [Attempts.rounds]
  rcases List.prefix_concat_iff.1 hpre with heq | hpre
  · rw [heq, List.mem_append, List.mem_singleton] at hstarted
    rcases hstarted with hstarted | hstarted
    · exact absurd hstarted (hnot m)
    · cases hstarted
      rw [heq, honce rfl]
      rfl
  · exact absurd (hpre.subset hstarted) (hnot m)

/-- A start that is not the first comes right after its task was opened again. -/
theorem Sound.restarted {before after : List Event} {k : Kind} {n : ℕ}
    (h : Sound kind (before ++ .started k n :: after) c) (hlater : before ≠ []) :
    ∃ earlier i, n = i + 1 ∧ before = earlier ++ [.started .repeatable i, .reopened i] := by
  obtain ⟨m, k', honce, hpre⟩ := h.rounds
  have hround : ∃ j, n = j + 1 ∧ before = Attempts.rounds j := by
    have hstart : before ++ [.started k n] <+: Attempts.rounds m ++ [.started k' (m + 1)] :=
      List.IsPrefix.trans ⟨after, by simp⟩ hpre
    rcases List.prefix_concat_iff.1 hstart with heq | hstart
    · obtain ⟨rfl, hlast⟩ := List.append_inj' heq rfl
      cases hlast
      exact ⟨m, rfl, rfl⟩
    · exact (started_extends hstart).2
  obtain ⟨j, rfl, rfl⟩ := hround
  cases j with
  | zero => exact absurd rfl hlater
  | succ j => exact ⟨Attempts.rounds j, j + 1, rfl, by rw [rounds_succ, List.append_assoc]; rfl⟩

/-- A live attempt is the last one of a task that is running. -/
theorem Sound.live {n : ℕ} (h : Sound kind events c) (hlive : n ∈ c.live) :
    ∃ task, c.task = some task ∧ task.phase = .running ∧ task.attempts = n ∧
      Event.reopened n ∉ events := by
  cases h with
  | free => exact absurd hlive (Set.notMem_empty n)
  | foreign => exact absurd hlive (Set.notMem_empty n)
  | ready => exact absurd hlive (Set.notMem_empty n)
  | ended => exact absurd hlive (Set.notMem_empty n)
  | running hown honce hone =>
      obtain rfl := Set.mem_singleton_iff.1 (hone hlive)
      refine ⟨_, rfl, rfl, rfl, fun hreopened => ?_⟩
      rcases List.mem_append.1 hreopened with hreopened | hreopened
      · exact absurd (reopened_mem hreopened) (by omega)
      · simp at hreopened

/-- A task that is done stays as it is. -/
theorem Step.done_kept {payload : π} {result : ρ} {n : ℕ} (hstep : Step kind added c c')
    (hdone : c.task = some ⟨payload, .done result, n⟩) :
    c'.task = some ⟨payload, .done result, n⟩ := by
  cases hstep with
  | keep => exact hdone
  | order | start => cases hdone
  | again | reopen | finish | abandon => cases hdone

/-! ## Runs -/

/-- One step after the other. -/
inductive Run (kind : π → Kind) : List Event → Cell π ρ → Cell π ρ → Prop
  | refl (c : Cell π ρ) : Run kind [] c c
  | tail {events added : List Event} {c c' c'' : Cell π ρ} (hrun : Run kind events c c')
      (hstep : Step kind added c' c'') : Run kind (events ++ added) c c''

theorem Run.single (hstep : Step kind events c c') : Run kind events c c' :=
  .tail (.refl c) hstep

theorem Run.sound (hrun : Run kind added c c') (h : Sound kind events c) :
    Sound kind (events ++ added) c' := by
  induction hrun with
  | refl =>
      rw [List.append_nil]
      exact h
  | tail _ hstep ih =>
      rw [← List.append_assoc]
      exact hstep.sound (ih h)

theorem Run.done_kept {payload : π} {result : ρ} {n : ℕ} (hrun : Run kind events c c')
    (hdone : c.task = some ⟨payload, .done result, n⟩) :
    c'.task = some ⟨payload, .done result, n⟩ := by
  induction hrun with
  | refl => exact hdone
  | tail _ hstep ih => exact hstep.done_kept (ih hdone)

end

end Attempts
