import Mathlib.Data.Set.Insert

/-!
# One winner

A contest is announced, and from then on it is open until a candidate wins or it
is called off. Either way there is a verdict. Other parties keep a list of the
candidates that were accepted, and the two records are written by the same hand:
a contest is `Sound` if the accepted candidates are exactly its winner. Every
step keeps it so, and once a contest is over nothing changes it. -/

namespace Contest

universe u v

variable {κ : Type u} {ν : Type v}

inductive Stage (κ : Type u) (ν : Type v) where
  | absent
  | running
  | won (winner : κ) (verdict : ν)
  | off (verdict : ν)

/-- The candidate that won, if the contest is over and one did. -/
def Stage.winner : Stage κ ν → Option κ
  | .won winner _ => some winner
  | .absent | .running | .off _ => none

/-- The verdict, once nothing more can happen to the contest. -/
def Stage.verdict : Stage κ ν → Option ν
  | .won _ verdict | .off verdict => some verdict
  | .absent | .running => none

structure Record (κ : Type u) (ν : Type v) where
  stage : Stage κ ν
  accepted : Set κ

inductive Step : Record κ ν → Record κ ν → Prop
  | keep (c : Record κ ν) : Step c c
  | announce (accepted : Set κ) : Step ⟨.absent, accepted⟩ ⟨.running, accepted⟩
  | win (accepted : Set κ) (winner : κ) (verdict : ν) :
      Step ⟨.running, accepted⟩ ⟨.won winner verdict, insert winner accepted⟩
  | callOff (accepted : Set κ) (verdict : ν) :
      Step ⟨.running, accepted⟩ ⟨.off verdict, accepted⟩

/-- The accepted candidates are the winner, if there is one. -/
def Sound (c : Record κ ν) : Prop :=
  ∀ candidate, candidate ∈ c.accepted ↔ c.stage.winner = some candidate

variable {c c' : Record κ ν}

theorem sound_absent : Sound (⟨.absent, ∅⟩ : Record κ ν) :=
  fun candidate => iff_of_false (Set.notMem_empty candidate) nofun

/-- Without a winner nobody is accepted. -/
theorem Sound.accepted_empty (h : Sound c) (hnone : c.stage.winner = none) : c.accepted = ∅ := by
  refine Set.eq_empty_of_forall_notMem fun candidate hmem => ?_
  rw [(h candidate).1 hmem] at hnone
  cases hnone

theorem Step.sound (hstep : Step c c') (h : Sound c) : Sound c' := by
  cases hstep with
  | keep => exact h
  | announce | callOff => exact h
  | win accepted winner =>
      have hempty : accepted = ∅ := h.accepted_empty rfl
      intro candidate
      rw [hempty, insert_empty_eq, Set.mem_singleton_iff, Stage.winner, Option.some.injEq]
      exact eq_comm

/-- What is over stays as it is. -/
theorem Step.over_kept (hstep : Step c c') (hover : c.stage.verdict ≠ none) : c' = c := by
  cases hstep with
  | keep => rfl
  | announce | win | callOff => exact (hover rfl).elim

/-- A contest that was announced does not go away. -/
theorem Step.announced (hstep : Step c c') (h : c.stage ≠ .absent) : c'.stage ≠ .absent := by
  cases hstep with
  | keep => exact h
  | announce | win | callOff => exact nofun

end Contest
