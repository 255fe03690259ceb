import PiWorkflows.Lib.Fallible

/-!
# Runs of a checked state machine

A machine that may refuse an action is a function into `Except`. Two kinds of
run come out of it. An accepted run applies its actions one after another and is
over at the first refusal: `accepted` is that computation. A served run is what
a store does, which answers every request and leaves its state alone when it
refuses one: `served` never stops.

Both obey the same two rules. What one accepted step preserves holds at the end
of a run, and a preorder that every accepted step follows relates its ends. The
rules for served runs ask about accepted steps only, since a refused one is the
identity. -/

namespace Trace

open Fallible

universe u v w

variable {σ : Type u} {α : Type v} {ε : Type w}

/-- Apply the actions in order, every one of which has to be accepted. -/
def accepted (step : σ → α → Except ε σ) : σ → List α → Except ε σ
  | s, [] => .ok s
  | s, a :: actions =>
      match step s a with
      | .ok s' => accepted step s' actions
      | .error e => .error e

theorem accepted_cons {step : σ → α → Except ε σ} {s t : σ} {a : α} {actions : List α} :
    accepted step s (a :: actions) = .ok t ↔
      ∃ s', step s a = .ok s' ∧ accepted step s' actions = .ok t := by
  rw [accepted]
  cases step s a <;> simp

theorem accepted_append {step : σ → α → Except ε σ} {s t : σ} {first second : List α} :
    accepted step s (first ++ second) = .ok t ↔
      ∃ mid, accepted step s first = .ok mid ∧ accepted step mid second = .ok t := by
  induction first generalizing s with
  | nil => simp [accepted]
  | cons a rest ih =>
      rw [List.cons_append, accepted_cons]
      simp only [accepted_cons, ih]
      constructor
      · rintro ⟨s', hs', mid, hrest, hsecond⟩
        exact ⟨mid, ⟨s', hs', hrest⟩, hsecond⟩
      · rintro ⟨mid, ⟨s', hs', hrest⟩, hsecond⟩
        exact ⟨s', hs', mid, hrest, hsecond⟩

/-- A run ends with its last action. -/
theorem accepted_concat {step : σ → α → Except ε σ} {s t : σ} {actions : List α} {a : α} :
    accepted step s (actions ++ [a]) = .ok t ↔
      ∃ mid, accepted step s actions = .ok mid ∧ step mid a = .ok t := by
  rw [accepted_append]
  refine exists_congr fun mid => and_congr_right fun _ => ?_
  rw [accepted_cons]
  simp [accepted]

theorem accepted_invariant {step : σ → α → Except ε σ} {P : σ → Prop}
    (hstep : ∀ s a s', P s → step s a = .ok s' → P s') {s t : σ} {actions : List α}
    (hs : P s) (h : accepted step s actions = .ok t) : P t := by
  induction actions generalizing s with
  | nil => rw [accepted] at h; cases h; exact hs
  | cons a rest ih =>
      obtain ⟨s', hs', hrest⟩ := accepted_cons.1 h
      exact ih (hstep s a s' hs hs') hrest

/-- A run all of whose actions fit the state they find. -/
def Fits (step : σ → α → σ) (fits : σ → α → Prop) (s : σ) (actions : List α) : Prop :=
  ∀ before a after, actions = before ++ a :: after → fits (before.foldl step s) a

/-- What a fitting action preserves holds at the end of a run whose actions all fit. -/
theorem Fits.invariant {step : σ → α → σ} {fits : σ → α → Prop} (P : σ → Prop)
    (hstep : ∀ s a, P s → fits s a → P (step s a)) {s : σ} (hs : P s) {actions : List α}
    (hfits : Fits step fits s actions) : P (actions.foldl step s) := by
  induction actions generalizing s with
  | nil => exact hs
  | cons a rest ih =>
      refine ih (hstep s a hs (hfits [] a rest rfl)) fun before b after heq => ?_
      exact hfits (a :: before) b after (by rw [heq]; rfl)

theorem fits_nil {step : σ → α → σ} {fits : σ → α → Prop} {s : σ} : Fits step fits s [] := by
  intro before a after heq
  cases before with
  | nil => cases heq
  | cons b before => cases heq

theorem fits_cons {step : σ → α → σ} {fits : σ → α → Prop} {s : σ} {a : α} {actions : List α} :
    Fits step fits s (a :: actions) ↔ fits s a ∧ Fits step fits (step s a) actions := by
  constructor
  · intro h
    refine ⟨h [] a actions rfl, fun before b after heq => ?_⟩
    exact h (a :: before) b after (by rw [heq]; rfl)
  · rintro ⟨hfirst, hrest⟩ before b after heq
    cases before with
    | nil =>
        obtain ⟨rfl, -⟩ := List.cons.inj heq
        exact hfirst
    | cons c before =>
        obtain ⟨rfl, rfl⟩ := List.cons.inj heq
        exact hrest before b after rfl

/-- One request to a store: a refusal leaves the state alone. -/
def serve (step : σ → α → Except ε σ) (s : σ) (a : α) : σ :=
  match step s a with
  | .ok s' => s'
  | .error _ => s

theorem serve_of_ok {step : σ → α → Except ε σ} {s s' : σ} {a : α} (h : step s a = .ok s') :
    serve step s a = s' := by
  rw [serve, h]

/-- Serve the requests in order. -/
def served (step : σ → α → Except ε σ) (s : σ) (actions : List α) : σ :=
  actions.foldl (serve step) s

@[simp] theorem served_nil (step : σ → α → Except ε σ) (s : σ) : served step s [] = s := rfl

@[simp] theorem served_cons (step : σ → α → Except ε σ) (s : σ) (a : α) (actions : List α) :
    served step s (a :: actions) = served step (serve step s a) actions := rfl

theorem served_append (step : σ → α → Except ε σ) (s : σ) (first second : List α) :
    served step s (first ++ second) = served step (served step s first) second := by
  simp [served]

theorem serve_invariant {step : σ → α → Except ε σ} {P : σ → Prop}
    (hstep : ∀ s a s', P s → step s a = .ok s' → P s') {s : σ} (hs : P s) (a : α) :
    P (serve step s a) := by
  unfold serve
  split
  · next s' h => exact hstep s a s' hs h
  · exact hs

theorem served_invariant {step : σ → α → Except ε σ} {P : σ → Prop}
    (hstep : ∀ s a s', P s → step s a = .ok s' → P s') {s : σ} (hs : P s)
    (actions : List α) : P (served step s actions) := by
  induction actions generalizing s with
  | nil => exact hs
  | cons a rest ih =>
      rw [served_cons]
      exact ih (serve_invariant hstep hs a)

/-- A preorder followed by every accepted step from a state of the invariant
relates the two ends of a served run. -/
theorem served_related {step : σ → α → Except ε σ} {P : σ → Prop} {R : σ → σ → Prop}
    (hrefl : ∀ s, R s s) (htrans : ∀ {s t u}, R s t → R t u → R s u)
    (hinv : ∀ s a s', P s → step s a = .ok s' → P s')
    (hstep : ∀ s a s', P s → step s a = .ok s' → R s s') {s : σ} (hs : P s)
    (actions : List α) : R s (served step s actions) := by
  induction actions generalizing s with
  | nil => exact hrefl s
  | cons a rest ih =>
      rw [served_cons]
      refine htrans ?_ (ih (serve_invariant hinv hs a))
      unfold serve
      split
      · next s' h => exact hstep s a s' hs h
      · exact hrefl s

end Trace
