import Mathlib.Data.List.Forall2

/-!
# Reading a fallible computation backwards

A checked computation is a chain of tests and partial steps in `Except`, and a
proof about it starts from the fact that it returned. The lemmas here turn that
fact into the list of everything the chain tested and produced on the way, one
link at a time, so no proof has to split the computation itself.
-/

namespace Fallible

universe u v w

variable {ε : Type u} {α β : Type v}

/-- Go on if the condition holds, refuse with the message otherwise. -/
def require (p : Prop) [Decidable p] (message : ε) : Except ε PUnit.{v + 1} :=
  if p then .ok .unit else .error message

/-- A check that is made only under a condition. -/
def onlyIf (p : Prop) [Decidable p] (check : Except ε PUnit.{v + 1}) : Except ε PUnit.{v + 1} :=
  if p then check else .ok .unit

/-- The value that has to be there, or the message. -/
def orThrow (message : ε) : Option α → Except ε α
  | some x => .ok x
  | none => .error message

@[simp] theorem require_ok {p : Prop} [Decidable p] {message : ε} {u : PUnit.{v + 1}} :
    require p message = .ok u ↔ p := by
  unfold require
  split
  · next h => simp [h]
  · next h => simp [h]

@[simp] theorem onlyIf_ok {p : Prop} [Decidable p] {check : Except ε PUnit.{v + 1}}
    {u : PUnit.{v + 1}} : onlyIf p check = .ok u ↔ (p → check = .ok .unit) := by
  unfold onlyIf
  split
  · next h => simp [h]
  · next h => simp [h]

@[simp] theorem orThrow_ok {message : ε} {o : Option α} {x : α} :
    orThrow message o = .ok x ↔ o = some x := by
  cases o <;> simp [orThrow]

@[simp] theorem bind_ok {x : Except ε α} {f : α → Except ε β} {r : β} :
    (x >>= f) = .ok r ↔ ∃ a, x = .ok a ∧ f a = .ok r := by
  cases x with
  | error e => simp [bind, Except.bind]
  | ok a => simp [bind, Except.bind]

@[simp] theorem pure_ok {x r : α} : (pure x : Except ε α) = .ok r ↔ x = r := by
  simp [pure, Except.pure]

@[simp] theorem map_ok {x : Except ε α} {f : α → β} {r : β} :
    x.map f = .ok r ↔ ∃ a, x = .ok a ∧ f a = r := by
  cases x <;> simp [Except.map]

/-- Another error for the same computation. -/
@[simp] theorem mapError_ok {ε' : Type w} {x : Except ε α} {f : ε → ε'} {a : α} :
    x.mapError f = .ok a ↔ x = .ok a := by
  cases x <;> simp [Except.mapError]

/-- A check of every item of a list, read item by item. -/
theorem mapM_ok {ε : Type u} {α β : Type v} {f : α → Except ε β} {l : List α} {r : List β} :
    l.mapM f = .ok r ↔ List.Forall₂ (fun a b => f a = .ok b) l r := by
  induction l generalizing r with
  | nil =>
      rw [List.mapM_nil, pure_ok, List.forall₂_nil_left_iff]
      exact eq_comm
  | cons a rest ih =>
      rw [List.mapM_cons, List.forall₂_cons_left_iff]
      simp only [bind_ok, pure_ok, ih]
      constructor
      · rintro ⟨b, hb, bs, hbs, rfl⟩
        exact ⟨b, bs, hb, hbs, rfl⟩
      · rintro ⟨b, bs, hb, hbs, rfl⟩
        exact ⟨b, hb, bs, hbs, rfl⟩

theorem ok_of_mapM {ε : Type u} {α β : Type v} {f : α → Except ε β} {l : List α} {r : List β}
    (h : l.mapM f = .ok r) : ∀ a ∈ l, ∃ b ∈ r, f a = .ok b := by
  have hall := mapM_ok.1 h
  clear h
  induction hall with
  | nil => exact fun a ha => absurd ha List.not_mem_nil
  | cons hfirst _ ih =>
      intro a ha
      rcases List.mem_cons.1 ha with rfl | ha
      · exact ⟨_, List.mem_cons_self, hfirst⟩
      · obtain ⟨b, hb, hok⟩ := ih a ha
        exact ⟨b, List.mem_cons_of_mem _ hb, hok⟩

/-- Every result of a pass over a list is the result of one of its items. -/
theorem source_of_mapM {ε : Type u} {α β : Type v} {f : α → Except ε β} {l : List α} {r : List β}
    (h : l.mapM f = .ok r) : ∀ b ∈ r, ∃ a ∈ l, f a = .ok b := by
  have hall := mapM_ok.1 h
  clear h
  induction hall with
  | nil => exact fun b hb => absurd hb List.not_mem_nil
  | cons hfirst _ ih =>
      intro b hb
      rcases List.mem_cons.1 hb with rfl | hb
      · exact ⟨_, List.mem_cons_self, hfirst⟩
      · obtain ⟨a, ha, hok⟩ := ih b hb
        exact ⟨a, List.mem_cons_of_mem _ ha, hok⟩

/-- Two passes over a list, one behind the other. -/
theorem mapM_trans {ε : Type u} {α β γ : Type v} {f : α → Except ε β} {g : β → Except ε γ}
    {l : List α} {r : List β} {t : List γ} (h : l.mapM f = .ok r) (h' : r.mapM g = .ok t) :
    List.Forall₂ (fun a c => ∃ b, f a = .ok b ∧ g b = .ok c) l t := by
  have hfirst := mapM_ok.1 h
  have hsecond := mapM_ok.1 h'
  clear h h'
  induction hfirst generalizing t with
  | nil =>
      cases hsecond
      exact .nil
  | cons ha _ ih =>
      cases hsecond with
      | cons hb hrest => exact .cons ⟨_, ha, hb⟩ (ih hrest)

/-- What is computed item by item is the image of what each item is known to give. -/
theorem eq_map_of_mapM {ε : Type u} {α β : Type v} {f : α → Except ε β} {g : α → β} {l : List α}
    {r : List β} (h : l.mapM f = .ok r) (hf : ∀ a b, f a = .ok b → b = g a) : r = l.map g := by
  have hall := mapM_ok.1 h
  clear h
  induction hall with
  | nil => rfl
  | cons hfirst _ ih => rw [List.map_cons, hf _ _ hfirst, ih]

theorem mapM_eq_map {ε : Type u} {α β : Type v} {f : α → Except ε β} {g : α → β} {l : List α}
    (h : ∀ a ∈ l, f a = .ok (g a)) : l.mapM f = .ok (l.map g) := by
  induction l with
  | nil => rfl
  | cons a rest ih =>
      rw [List.mapM_cons, h a List.mem_cons_self, ih fun b hb => h b (List.mem_cons_of_mem a hb)]
      rfl

/-- A check of a list passes if it passes on every item. -/
@[simp] theorem forM_ok {ε : Type u} {α : Type v} {f : α → Except ε PUnit.{w + 1}} {l : List α}
    {r : PUnit.{w + 1}} : l.forM f = .ok r ↔ ∀ a ∈ l, f a = .ok .unit := by
  induction l with
  | nil => exact iff_of_true rfl fun _ ha => absurd ha List.not_mem_nil
  | cons a rest ih =>
      show (f a >>= fun _ => rest.forM f) = .ok r ↔ _
      rw [bind_ok, List.forall_mem_cons]
      constructor
      · rintro ⟨_, hfirst, hrest⟩
        exact ⟨hfirst, ih.1 hrest⟩
      · rintro ⟨hfirst, hrest⟩
        exact ⟨.unit, hfirst, ih.2 hrest⟩

end Fallible
