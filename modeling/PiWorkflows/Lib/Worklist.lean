import Mathlib.Data.List.Nodup
import Mathlib.Data.List.Perm.Subperm
import Mathlib.Logic.Relation

/-!
# Visiting what can be reached

The breadth-first loop: a list of what was seen, a queue of what was seen but not
looked at, and a function that says where one leads. The loop is bounded by
fuel. Each value enters the queue when it is first seen, so one unit for each
value there is covers the loop (`mem_visit`), and what it returns is what can be
reached from where it started.
-/

namespace Worklist

universe u

variable {α : Type u} [DecidableEq α]

/-- Values that were not seen yet are seen and wait in the queue. -/
def push (values seen queue : List α) : List α × List α :=
  values.foldl
    (fun (seen, pending) value =>
      if value ∈ seen then (seen, pending) else (seen ++ [value], pending ++ [value]))
    (seen, queue)

def visit (successors : α → List α) : Nat → List α → List α → List α
  | 0, seen, _ => seen
  | _ + 1, seen, [] => seen
  | fuel + 1, seen, source :: queue =>
      let (seen, pending) := push (successors source) seen queue
      visit successors fuel seen pending

/-- A step of the walk. -/
def Next (successors : α → List α) (a b : α) : Prop :=
  b ∈ successors a

theorem push_cons (first : α) (rest seen queue : List α) :
    push (first :: rest) seen queue =
      if first ∈ seen then push rest seen queue
      else push rest (seen ++ [first]) (queue ++ [first]) := by
  simp only [push, List.foldl_cons]
  split <;> rfl

/-- What one push adds. -/
theorem push_eq (values seen queue : List α) :
    ∃ fresh, push values seen queue = (seen ++ fresh, queue ++ fresh) ∧ fresh.Nodup ∧
      ∀ value, value ∈ fresh ↔ value ∈ values ∧ value ∉ seen := by
  induction values generalizing seen queue with
  | nil => exact ⟨[], by simp [push], List.nodup_nil, by simp⟩
  | cons first rest ih =>
      by_cases hseen : first ∈ seen
      · obtain ⟨fresh, hpush, hnodup, hmem⟩ := ih seen queue
        refine ⟨fresh, ?_, hnodup, ?_⟩
        · rw [push_cons, if_pos hseen, hpush]
        · intro value
          rw [hmem, List.mem_cons]
          constructor
          · exact fun h => ⟨.inr h.1, h.2⟩
          · rintro ⟨rfl | h, hnot⟩
            · exact absurd hseen hnot
            · exact ⟨h, hnot⟩
      · obtain ⟨fresh, hpush, hnodup, hmem⟩ := ih (seen ++ [first]) (queue ++ [first])
        refine ⟨first :: fresh, ?_, ?_, ?_⟩
        · rw [push_cons, if_neg hseen, hpush, List.append_assoc, List.append_assoc]
          rfl
        · refine List.nodup_cons.2 ⟨?_, hnodup⟩
          rw [hmem]
          simp
        · intro value
          rw [List.mem_cons, hmem, List.mem_cons, List.mem_append, List.mem_singleton]
          by_cases heq : value = first
          · subst heq
            simp [hseen]
          · simp [heq]

section

variable {successors : α → List α}

/-- Whatever the fuel is, only what can be reached is seen. -/
theorem visit_sound {start : α} {fuel : Nat} {seen queue : List α}
    (hqueue : ∀ value ∈ queue, value ∈ seen)
    (hseen : ∀ value ∈ seen, Relation.ReflTransGen (Next successors) start value) :
    ∀ value ∈ visit successors fuel seen queue,
      Relation.ReflTransGen (Next successors) start value := by
  induction fuel generalizing seen queue with
  | zero => exact hseen
  | succ fuel ih =>
      cases queue with
      | nil => exact hseen
      | cons source queue =>
          obtain ⟨fresh, hpush, -, hfresh⟩ := push_eq (successors source) seen queue
          rw [visit, hpush]
          refine ih ?_ ?_
          · intro value hvalue
            rcases List.mem_append.1 hvalue with h | h
            · exact List.mem_append_left _ (hqueue value (List.mem_cons_of_mem _ h))
            · exact List.mem_append_right _ h
          · intro value hvalue
            rcases List.mem_append.1 hvalue with h | h
            · exact hseen value h
            · exact (hseen source (hqueue source List.mem_cons_self)).tail ((hfresh value).1 h).1

/-- With enough fuel the loop ends by itself. -/
theorem visit_closed {everything : List α} {fuel : Nat} {seen queue : List α}
    (hnodup : seen.Nodup) (hseen : ∀ value ∈ seen, value ∈ everything)
    (hsuccessors : ∀ source, ∀ value ∈ successors source, value ∈ everything)
    (hfuel : everything.length + queue.length ≤ fuel + seen.length)
    (hdone : ∀ source ∈ seen, source ∉ queue → ∀ value ∈ successors source, value ∈ seen) :
    (∀ value ∈ seen, value ∈ visit successors fuel seen queue) ∧
      ∀ source ∈ visit successors fuel seen queue, ∀ value ∈ successors source,
        value ∈ visit successors fuel seen queue := by
  induction fuel generalizing seen queue with
  | zero =>
      have hlength : seen.length ≤ everything.length :=
        (List.subperm_of_subset hnodup hseen).length_le
      have hempty : queue = [] := List.length_eq_zero_iff.1 (by omega)
      subst hempty
      exact ⟨fun _ h => h, fun source h => hdone source h List.not_mem_nil⟩
  | succ fuel ih =>
      cases queue with
      | nil => exact ⟨fun _ h => h, fun source h => hdone source h List.not_mem_nil⟩
      | cons source queue =>
          obtain ⟨fresh, hpush, hfreshNodup, hfresh⟩ := push_eq (successors source) seen queue
          rw [visit, hpush]
          have hnodup' : (seen ++ fresh).Nodup := by
            refine List.nodup_append.2 ⟨hnodup, hfreshNodup, ?_⟩
            rintro value hvalue _ hnew rfl
            exact ((hfresh value).1 hnew).2 hvalue
          have hseen' : ∀ value ∈ seen ++ fresh, value ∈ everything := by
            intro value hvalue
            rcases List.mem_append.1 hvalue with h | h
            · exact hseen value h
            · exact hsuccessors source value ((hfresh value).1 h).1
          have hfuel' : everything.length + (queue ++ fresh).length ≤
              fuel + (seen ++ fresh).length := by
            rw [List.length_append, List.length_append]
            rw [List.length_cons] at hfuel
            omega
          -- Only what was just taken out of the queue is new among those looked at.
          have hdone' : ∀ other ∈ seen ++ fresh, other ∉ queue ++ fresh →
              ∀ value ∈ successors other, value ∈ seen ++ fresh := by
            intro other hother hwaiting value hvalue
            rw [List.mem_append] at hother hwaiting
            by_cases htaken : other = source
            · subst htaken
              by_cases hknown : value ∈ seen
              · exact List.mem_append_left _ hknown
              · exact List.mem_append_right _ ((hfresh value).2 ⟨hvalue, hknown⟩)
            · have hbefore : other ∈ seen := hother.resolve_right fun h => hwaiting (.inr h)
              refine List.mem_append_left _ (hdone other hbefore ?_ value hvalue)
              intro h
              rcases List.mem_cons.1 h with h | h
              · exact htaken h
              · exact hwaiting (.inl h)
          obtain ⟨hkept, hclosed⟩ := ih hnodup' hseen' hfuel' hdone'
          exact ⟨fun value h => hkept value (List.mem_append_left _ h), hclosed⟩

theorem mem_visit {everything : List α} {start : α} {fuel : Nat} (hstart : start ∈ everything)
    (hsuccessors : ∀ source, ∀ value ∈ successors source, value ∈ everything)
    (hfuel : everything.length ≤ fuel) {value : α} :
    value ∈ visit successors fuel [start] [start] ↔
      Relation.ReflTransGen (Next successors) start value := by
  constructor
  · refine visit_sound (fun _ h => h) ?_ value
    intro value h
    rw [List.mem_singleton.1 h]
  · have hfuel' : everything.length + [start].length ≤ fuel + [start].length := by omega
    obtain ⟨hkept, hclosed⟩ := visit_closed (List.nodup_singleton start) (by simpa using hstart)
      hsuccessors hfuel' (fun source h hnot => absurd h hnot)
    intro hreached
    induction hreached with
    | refl => exact hkept start List.mem_cons_self
    | tail _ hnext ih => exact hclosed _ ih _ hnext

end

end Worklist
