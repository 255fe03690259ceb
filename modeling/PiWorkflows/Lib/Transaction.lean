import PiWorkflows.Lib.Fallible

/-!
# Transactions around code that writes

Code that writes to a state as it goes, and may throw in between, leaves behind what it
has written until then. A transaction around it takes that back. Only the outermost
transaction does: one inside another is the code itself, and what it has written is taken
back, or not, with everything else.

What is known of such code comes from a run that came to its end: `bind_run` reads the run of
a sequence as the runs of its parts.
-/

namespace Transaction

universe u

variable {σ ε α β : Type u}

/-- Code that writes to a state. -/
abbrev Work (σ ε α : Type u) := EStateM ε σ α

/-- The state that a piece of work leaves. -/
def left : EStateM.Result ε σ α → σ
  | .ok _ s => s
  | .error _ s => s

/-- A check or a computation that writes nothing. -/
def check (x : Except ε α) : Work σ ε α := fun s =>
  match x with
  | .ok a => .ok a s
  | .error e => .error e s

/-- One statement, which writes or throws. -/
def write (f : σ → Except ε (σ × α)) : Work σ ε α := fun s =>
  match f s with
  | .ok (s', a) => .ok a s'
  | .error e => .error e s

/-- `BEGIN`, and then `COMMIT` or `ROLLBACK`. -/
def transaction (work : Work σ ε α) : Work σ ε α := fun s =>
  match work s with
  | .ok a s' => .ok a s'
  | .error e _ => .error e s

@[simp] theorem pure_run {a b : α} {s s' : σ} :
    (pure a : Work σ ε α) s = .ok b s' ↔ a = b ∧ s = s' := by
  show EStateM.Result.ok a s = .ok b s' ↔ _
  simp

@[simp] theorem check_run {x : Except ε α} {a : α} {s s' : σ} :
    check x s = .ok a s' ↔ x = .ok a ∧ s = s' := by
  cases x <;> simp [check]

@[simp] theorem write_run {f : σ → Except ε (σ × α)} {a : α} {s s' : σ} :
    write f s = .ok a s' ↔ f s = .ok (s', a) := by
  rw [write]
  split
  · next t b heq =>
      rw [heq, EStateM.Result.ok.injEq, Except.ok.injEq, Prod.mk.injEq, and_comm]
  · next e heq => simp [heq]

@[simp] theorem transaction_run {work : Work σ ε α} {a : α} {s s' : σ} :
    transaction work s = .ok a s' ↔ work s = .ok a s' := by
  rw [transaction]
  cases work s <;> simp

@[simp] theorem bind_run {work : Work σ ε α} {f : α → Work σ ε β} {b : β} {s s' : σ} :
    (work >>= f) s = .ok b s' ↔ ∃ a t, work s = .ok a t ∧ f a t = .ok b s' := by
  show EStateM.bind work f s = .ok b s' ↔ _
  rw [EStateM.bind]
  cases work s <;> simp

@[simp] theorem get_run {s s' t : σ} : (get : Work σ ε σ) s = .ok t s' ↔ s = t ∧ s = s' := by
  show EStateM.Result.ok s s = .ok t s' ↔ _
  simp

/-! ## What throws -/

/-- Work that leaves the state as it was if it throws. -/
def Atomic (work : Work σ ε α) : Prop :=
  ∀ s e s', work s = .error e s' → s' = s

/-- Work that never writes. -/
def Reads (work : Work σ ε α) : Prop :=
  ∀ s, left (work s) = s

theorem reads_check (x : Except ε α) : Reads (check x : Work σ ε α) := by
  intro s
  cases x <;> rfl

theorem reads_get : Reads (get : Work σ ε σ) := fun _ => rfl

theorem reads_pure (a : α) : Reads (pure a : Work σ ε α) := fun _ => rfl

theorem reads_throw (e : ε) : Reads (throw e : Work σ ε α) := fun _ => rfl

theorem Reads.atomic {work : Work σ ε α} (h : Reads work) : Atomic work := by
  intro s e s' herror
  have hleft := h s
  rw [herror] at hleft
  exact hleft

theorem atomic_set (s : σ) : Atomic (set s : Work σ ε PUnit) := by
  intro _ _ _ herror
  cases herror

/-- What throws is taken back. -/
theorem atomic_transaction (work : Work σ ε α) : Atomic (transaction work) := by
  intro s e s' herror
  rw [transaction] at herror
  split at herror <;> cases herror
  rfl

/-- Behind work that only reads. -/
theorem Reads.bind {work : Work σ ε α} {f : α → Work σ ε β} (h : Reads work)
    (hf : ∀ a, Atomic (f a)) : Atomic (work >>= f) := by
  intro s e s' herror
  have hbind : EStateM.bind work f s = .error e s' := herror
  have hleft := h s
  rw [EStateM.bind] at hbind
  cases hrun : work s with
  | ok a t =>
      rw [hrun] at hbind hleft
      obtain rfl : t = s := hleft
      exact hf a t e s' hbind
  | error e' t =>
      rw [hrun] at hbind hleft
      cases hbind
      exact hleft

/-- What is computed from the end of it throws no more. -/
theorem Atomic.bind_pure {work : Work σ ε α} (h : Atomic work) (g : α → β) :
    Atomic (work >>= fun a => pure (g a)) := by
  intro s e s' herror
  have hbind : EStateM.bind work (fun a => pure (g a)) s = .error e s' := herror
  rw [EStateM.bind] at hbind
  cases hrun : work s with
  | ok a t =>
      rw [hrun] at hbind
      cases hbind
  | error e' t =>
      rw [hrun] at hbind
      cases hbind
      exact h s _ _ hrun

theorem Atomic.map {work : Work σ ε α} (h : Atomic work) (g : α → β) : Atomic (g <$> work) :=
  h.bind_pure g

end Transaction
