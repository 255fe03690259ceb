import Mathlib.Data.List.Basic
import Mathlib.Data.List.Forall2

/-!
# The latest entry of a log that says something

A log is read from its end: `latest f` is what the last entry has to say on which
`f` says anything. A fold that overwrites reads like that (`foldl_latest`), so a
table that was filled by a log can be looked up in the log itself, and only the
entries that `f` speaks about matter (`latest_filter`). A log can be cut down to
the last entry of each key (`lastPer`) without loss, if the entry that speaks last
is always the last of its key (`latest_lastPer`).
-/

namespace Latest

universe u v w

variable {α : Type u} {β : Type v}

/-- What the last entry says that says anything. -/
def latest (f : α → Option β) (log : List α) : Option β :=
  log.reverse.findSome? f

variable {f : α → Option β} {log later : List α}

@[simp] theorem latest_nil : latest f [] = none := rfl

@[simp] theorem latest_append : latest f (log ++ later) = (latest f later).or (latest f log) := by
  rw [latest, List.reverse_append, List.findSome?_append]
  rfl

@[simp] theorem latest_singleton (a : α) : latest f [a] = f a := by
  simp [latest]

theorem latest_none_iff : latest f log = none ↔ ∀ a ∈ log, f a = none := by
  simp [latest, List.findSome?_eq_none_iff]

/-- The last entry that says something, and nothing is said behind it. -/
theorem latest_some_iff {b : β} :
    latest f log = some b ↔
      ∃ before a after, log = before ++ a :: after ∧ f a = some b ∧ ∀ x ∈ after, f x = none := by
  rw [latest, List.findSome?_eq_some_iff]
  constructor
  · rintro ⟨l₁, a, l₂, hlog, ha, hnone⟩
    refine ⟨l₂.reverse, a, l₁.reverse, ?_, ha, fun x hx => hnone x (List.mem_reverse.1 hx)⟩
    rw [← List.reverse_reverse log, hlog]
    simp
  · rintro ⟨before, a, after, rfl, ha, hnone⟩
    refine ⟨after.reverse, a, before.reverse, by simp, ha, ?_⟩
    exact fun x hx => hnone x (List.mem_reverse.1 hx)

/-- Entries that say nothing can be left out. -/
theorem latest_filter {p : α → Bool} (h : ∀ a ∈ log, f a ≠ none → p a = true) :
    latest f (log.filter p) = latest f log := by
  induction log with
  | nil => rfl
  | cons a rest ih =>
      have hrest := ih fun b hb => h b (List.mem_cons_of_mem a hb)
      rw [← List.singleton_append, List.filter_append, latest_append, latest_append, hrest]
      congr 1
      by_cases ha : f a = none
      · cases hp : p a <;> simp [hp, ha]
      · rw [List.filter_singleton, h a List.mem_cons_self ha]
        rfl

/-- What was said somewhere behind a point is what is said last. -/
theorem latest_append_of_said (h : ∃ a ∈ later, f a ≠ none) :
    latest f (log ++ later) = latest f later := by
  rw [latest_append]
  cases hlater : latest f later with
  | some b => rfl
  | none =>
      obtain ⟨a, ha, hsaid⟩ := h
      exact absurd (latest_none_iff.1 hlater a ha) hsaid

/-- A fold whose rounds overwrite what is read holds what was said last. -/
theorem foldl_latest {σ : Type w} (f : α → Option β) (round : σ → α → σ) (read : σ → β)
    (h : ∀ s a, read (round s a) = (f a).getD (read s)) (s : σ) (log : List α) :
    read (log.foldl round s) = (latest f log).getD (read s) := by
  induction log generalizing s with
  | nil => rfl
  | cons a rest ih =>
      rw [List.foldl_cons, ih, h, ← List.singleton_append, latest_append, latest_singleton]
      cases latest f rest <;> rfl

/-! ## One entry for each key -/

section LastPer

variable {κ : Type w} [DecidableEq κ] {key : α → κ}

/-- The last entry of each key, in the order of the log. -/
def lastPer (key : α → κ) : List α → List α
  | [] => []
  | a :: rest => if ∃ b ∈ rest, key b = key a then lastPer key rest else a :: lastPer key rest

theorem lastPer_sublist (key : α → κ) (log : List α) : (lastPer key log).Sublist log := by
  induction log with
  | nil => exact List.Sublist.refl _
  | cons a rest ih =>
      rw [lastPer]
      split
      · exact ih.cons a
      · exact ih.cons_cons a

/-- The last entry of a key stays, with what stays behind it. -/
theorem lastPer_append {a : α} (before : List α) (h : ∀ b ∈ later, key b ≠ key a) :
    ∃ front, lastPer key (before ++ a :: later) = front ++ a :: lastPer key later := by
  induction before with
  | nil =>
      refine ⟨[], ?_⟩
      rw [List.nil_append, lastPer, if_neg]
      · rfl
      · rintro ⟨b, hb, hkey⟩
        exact h b hb hkey
  | cons b rest ih =>
      obtain ⟨front, hfront⟩ := ih
      rw [List.cons_append, lastPer]
      split
      · exact ⟨front, hfront⟩
      · exact ⟨b :: front, by rw [hfront, List.cons_append]⟩

/-- Nothing is lost on the way to the last entries, if whoever says something last
is the last of its key. -/
theorem latest_lastPer
    (h : ∀ before a after, log = before ++ a :: after → f a ≠ none → (∀ x ∈ after, f x = none) →
      ∀ x ∈ after, key x ≠ key a) :
    latest f (lastPer key log) = latest f log := by
  cases hlog : latest f log with
  | none =>
      rw [latest_none_iff] at hlog ⊢
      exact fun a ha => hlog a ((lastPer_sublist key log).subset ha)
  | some b =>
      obtain ⟨before, a, after, rfl, ha, hafter⟩ := latest_some_iff.1 hlog
      have hlast := h before a after rfl (by rw [ha]; exact Option.some_ne_none b) hafter
      obtain ⟨front, hfront⟩ := lastPer_append before hlast
      rw [hfront]
      refine latest_some_iff.2 ⟨front, a, lastPer key after, rfl, ha, fun x hx => ?_⟩
      exact hafter x ((lastPer_sublist key after).subset hx)

/-- In a log with increasing numbers, the last entry of each key is the one with
the highest number. -/
theorem filter_highest (number : α → Nat) (h : log.Pairwise fun a b => number a < number b) :
    (log.filter fun a => decide (∀ b ∈ log, key b = key a → number b ≤ number a)) =
      lastPer key log := by
  induction log with
  | nil => rfl
  | cons a rest ih =>
      obtain ⟨ha, hrest⟩ := List.pairwise_cons.1 h
      have htail : (rest.filter fun c =>
          decide (∀ b ∈ a :: rest, key b = key c → number b ≤ number c)) = lastPer key rest := by
        rw [← ih hrest]
        refine List.filter_congr fun c hc => decide_eq_decide.2 ?_
        rw [List.forall_mem_cons]
        exact ⟨And.right, fun hhigh => ⟨fun _ => Nat.le_of_lt (ha c hc), hhigh⟩⟩
      rw [List.filter_cons, htail, lastPer]
      by_cases hlater : ∃ b ∈ rest, key b = key a
      · obtain ⟨b, hb, hkey⟩ := hlater
        have hlow : ¬ ∀ c ∈ a :: rest, key c = key a → number c ≤ number a := fun hhigh =>
          absurd (ha b hb) (Nat.not_lt.2 (hhigh b (List.mem_cons_of_mem a hb) hkey))
        rw [decide_eq_false hlow, if_neg Bool.false_ne_true, if_pos ⟨b, hb, hkey⟩]
      · have hhigh : ∀ b ∈ a :: rest, key b = key a → number b ≤ number a := by
          intro b hb hkey
          rcases List.mem_cons.1 hb with rfl | hb
          · exact Nat.le_refl _
          · exact absurd ⟨b, hb, hkey⟩ hlater
        rw [decide_eq_true hhigh, if_pos rfl, if_neg hlater]

/-- Logs that run alongside each other have last entries that do. -/
theorem forall₂_lastPer {γ : Type v} {R : α → γ → Prop} {key' : γ → κ} {log' : List γ}
    (hkey : ∀ a c, R a c → key a = key' c) (h : List.Forall₂ R log log') :
    List.Forall₂ R (lastPer key log) (lastPer key' log') := by
  have hmem : ∀ {k : κ} {l : List α} {l' : List γ}, List.Forall₂ R l l' →
      ((∃ b ∈ l, key b = k) ↔ ∃ b ∈ l', key' b = k) := by
    intro k l l' hall
    induction hall with
    | nil => simp
    | cons hfirst _ ih => simp only [List.exists_mem_cons_iff, ih, hkey _ _ hfirst]
  induction h with
  | nil => exact .nil
  | @cons a c rest _ hfirst hrest ih =>
      rw [lastPer, lastPer, hkey a c hfirst]
      by_cases hlater : ∃ b ∈ rest, key b = key' c
      · rw [if_pos hlater, if_pos ((hmem hrest).1 hlater)]
        exact ih
      · rw [if_neg hlater, if_neg fun h => hlater ((hmem hrest).2 h)]
        exact .cons hfirst ih

end LastPer

end Latest
