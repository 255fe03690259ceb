import Mathlib.Data.List.Nodup
import Mathlib.Logic.Relation
import PiWorkflows.Lib.Assoc

/-!
# Levels along the edges of an acyclic graph

A level table is raised edge by edge: the target of an edge stands at least one above
its source. Passes over all edges go on until one changes nothing. Without a cycle
the edges agree with an order of the nodes, each pass settles the next node of that
order, and as many passes as there are nodes settle them all (`passes_satisfied`).
-/

namespace Layers

open Relation

universe u v

variable {α : Type u} {ι : Type v} [DecidableEq α]

section

variable (source target : ι → α)

/-- One edge, and whether it changed the table or one before it did. -/
def relax (st : List (α × Nat) × Bool) (edge : ι) : List (α × Nat) × Bool :=
  match st.1.lookup (source edge) with
  | none => st
  | some level =>
      if (st.1.lookup (target edge)).all (· < level + 1) then
        (Assoc.setKey (target edge) (level + 1) st.1, true)
      else st

/-- At most so many passes. -/
def passes (edges : List ι) : Nat → List (α × Nat) → List (α × Nat)
  | 0, levels => levels
  | count + 1, levels =>
      let (levels, changed) := edges.foldl (relax source target) (levels, false)
      if changed then passes edges count levels else levels

/-- The target of the edge stands above its source. -/
def Satisfied (levels : List (α × Nat)) (edge : ι) : Prop :=
  ∀ l, levels.lookup (source edge) = some l → ∃ m, levels.lookup (target edge) = some m ∧ l < m

end

/-- Nothing stands lower than before. -/
def Rises (levels levels' : List (α × Nat)) : Prop :=
  ∀ x l, levels.lookup x = some l → ∃ m, levels'.lookup x = some m ∧ l ≤ m

variable {source target : ι → α} {edges : List ι}

theorem Rises.refl (levels : List (α × Nat)) : Rises levels levels :=
  fun _ l h => ⟨l, h, le_rfl⟩

theorem Rises.trans {a b c : List (α × Nat)} (h : Rises a b) (h' : Rises b c) : Rises a c := by
  intro x l hx
  obtain ⟨m, hm, hlm⟩ := h x l hx
  obtain ⟨n, hn, hmn⟩ := h' x m hm
  exact ⟨n, hn, hlm.trans hmn⟩

/-! ## One edge -/

/-- Either the table stays and the edge is satisfied, or the target is raised. -/
theorem relax_cases (source target : ι → α) (st : List (α × Nat) × Bool) (edge : ι) :
    (relax source target st edge = st ∧ Satisfied source target st.1 edge) ∨
      ∃ level, st.1.lookup (source edge) = some level ∧
        (∀ m, st.1.lookup (target edge) = some m → m ≤ level) ∧
        relax source target st edge = (Assoc.setKey (target edge) (level + 1) st.1, true) := by
  unfold relax
  cases hsource : st.1.lookup (source edge) with
  | none => exact .inl ⟨rfl, fun l hl => absurd (hsource.symm.trans hl) (by simp)⟩
  | some level =>
      dsimp only
      split
      · next hraise =>
          refine .inr ⟨level, rfl, fun m hm => ?_, rfl⟩
          rw [hm, Option.all_some, decide_eq_true_eq] at hraise
          omega
      · next hkeep =>
          refine .inl ⟨rfl, fun l hl => ?_⟩
          rw [hsource] at hl
          cases hl
          cases htarget : st.1.lookup (target edge) with
          | none => exact absurd (by rw [htarget]; rfl) hkeep
          | some m =>
              rw [htarget, Option.all_some, decide_eq_true_eq] at hkeep
              exact ⟨m, rfl, by omega⟩

theorem relax_rises (st : List (α × Nat) × Bool) (edge : ι) :
    Rises st.1 (relax source target st edge).1 := by
  rcases relax_cases source target st edge with
    ⟨hsame, -⟩ | ⟨level, -, hlow, hraised⟩
  · rw [hsame]
    exact .refl _
  · rw [hraised]
    intro x l hx
    rw [Assoc.lookup_setKey]
    by_cases heq : x = target edge
    · rw [if_pos heq]
      have hle := hlow l (heq ▸ hx)
      exact ⟨level + 1, rfl, by omega⟩
    · rw [if_neg heq]
      exact ⟨l, hx, le_rfl⟩

theorem relax_satisfied {st : List (α × Nat) × Bool} {edge : ι}
    (hne : source edge ≠ target edge) :
    Satisfied source target (relax source target st edge).1 edge := by
  rcases relax_cases source target st edge with
    ⟨hsame, hsat⟩ | ⟨level, hlevel, -, hraised⟩
  · rw [hsame]
    exact hsat
  · rw [hraised]
    intro l hl
    rw [Assoc.lookup_setKey, if_neg hne, hlevel] at hl
    cases hl
    exact ⟨level + 1, by rw [Assoc.lookup_setKey, if_pos rfl], by omega⟩

theorem relax_of_satisfied {st : List (α × Nat) × Bool} {edge : ι}
    (h : Satisfied source target st.1 edge) : relax source target st edge = st := by
  rcases relax_cases source target st edge with
    ⟨hsame, -⟩ | ⟨level, hlevel, hlow, -⟩
  · exact hsame
  · obtain ⟨m, hm, hlt⟩ := h level hlevel
    have hle := hlow m hm
    omega

theorem relax_other {st : List (α × Nat) × Bool} {edge : ι} {x : α} (h : x ≠ target edge) :
    (relax source target st edge).1.lookup x = st.1.lookup x := by
  rcases relax_cases source target st edge with
    ⟨hsame, -⟩ | ⟨level, -, -, hraised⟩
  · rw [hsame]
  · rw [hraised, Assoc.lookup_setKey, if_neg h]

/-! ## One pass -/

theorem foldl_rises (source target : ι → α) (rest : List ι) (st : List (α × Nat) × Bool) :
    Rises st.1 (rest.foldl (relax source target) st).1 := by
  induction rest generalizing st with
  | nil => exact .refl _
  | cons edge rest ih => exact (relax_rises st edge).trans (ih _)

/-- A pass that changed nothing has found every edge satisfied. -/
theorem foldl_unchanged {rest : List ι} {st : List (α × Nat) × Bool}
    (h : (rest.foldl (relax source target) st).2 = false) :
    (rest.foldl (relax source target) st).1 = st.1 ∧ ∀ e ∈ rest, Satisfied source target st.1 e := by
  have hkept : ∀ (rest : List ι) (st : List (α × Nat) × Bool), st.2 = true →
      (rest.foldl (relax source target) st).2 = true := by
    intro rest
    induction rest with
    | nil => exact fun _ h => h
    | cons edge rest ih =>
        intro st hst
        refine ih _ ?_
        rcases relax_cases source target st edge with
          ⟨hsame, -⟩ | ⟨level, -, -, hraised⟩
        · rw [hsame, hst]
        · rw [hraised]
  induction rest generalizing st with
  | nil => exact ⟨rfl, fun _ he => absurd he List.not_mem_nil⟩
  | cons edge rest ih =>
      rw [List.foldl_cons] at h ⊢
      rcases relax_cases source target st edge with
        ⟨hsame, hsat⟩ | ⟨level, -, -, hraised⟩
      · rw [hsame] at h ⊢
        obtain ⟨hlevels, hrest⟩ := ih h
        exact ⟨hlevels, List.forall_mem_cons.2 ⟨hsat, hrest⟩⟩
      · rw [hraised, hkept rest _ rfl] at h
        cases h

/-- The edges into a set of nodes that edges do not enter from outside are satisfied. -/
structure Settled (source target : ι → α) (edges : List ι) (P : α → Prop)
    (levels : List (α × Nat)) : Prop where
  closed : ∀ e ∈ edges, P (target e) → P (source e)
  satisfied : ∀ e ∈ edges, P (target e) → Satisfied source target levels e

/-- What is settled stays where it is. -/
theorem Settled.foldl {P : α → Prop} (st : List (α × Nat) × Bool) {rest : List ι}
    (h : Settled source target edges P st.1) (hrest : ∀ e ∈ rest, e ∈ edges) :
    Settled source target edges P (rest.foldl (relax source target) st).1 ∧
      ∀ x, P x → (rest.foldl (relax source target) st).1.lookup x = st.1.lookup x := by
  induction rest generalizing st with
  | nil => exact ⟨h, fun _ _ => rfl⟩
  | cons edge rest ih =>
      have hedge := hrest edge List.mem_cons_self
      have hsame : ∀ x, P x → (relax source target st edge).1.lookup x = st.1.lookup x := by
        intro x hx
        by_cases heq : x = target edge
        · rw [relax_of_satisfied (h.satisfied edge hedge (heq ▸ hx))]
        · exact relax_other heq
      have hsettled : Settled source target edges P (relax source target st edge).1 := by
        refine ⟨h.closed, fun e he htarget l hl => ?_⟩
        rw [hsame _ (h.closed e he htarget)] at hl
        rw [hsame _ htarget]
        exact h.satisfied e he htarget l hl
      obtain ⟨hall, hfixed⟩ := ih _ hsettled fun e he => hrest e (List.mem_cons_of_mem _ he)
      exact ⟨hall, fun x hx => (hfixed x hx).trans (hsame x hx)⟩

/-- A pass settles a node whose edges all come from settled nodes. -/
theorem Settled.pass {P : α → Prop} {levels : List (α × Nat)} {v : α}
    (h : Settled source target edges P levels) (hv : ¬ P v)
    (hin : ∀ e ∈ edges, target e = v → P (source e)) :
    Settled source target edges (fun x => P x ∨ x = v)
      (edges.foldl (relax source target) (levels, false)).1 := by
  have hall := (Settled.foldl (levels, false) h fun _ he => he).1
  refine ⟨fun e he htarget => .inl ?_, fun e he htarget => ?_⟩
  · exact htarget.elim (h.closed e he) (hin e he)
  · rcases htarget with htarget | htarget
    · exact hall.satisfied e he htarget
    · have hsource := hin e he htarget
      have hne : source e ≠ target e := fun heq => hv (htarget ▸ heq ▸ hsource)
      -- The edge is satisfied when its turn comes, and later its source does not move any more.
      obtain ⟨before, after, hsplit⟩ := List.append_of_mem he
      have hbefore : ∀ x ∈ before, x ∈ edges := fun x hx => hsplit ▸ List.mem_append_left _ hx
      have hafter : ∀ x ∈ after, x ∈ edges := fun x hx =>
        hsplit ▸ List.mem_append_right _ (List.mem_cons_of_mem e hx)
      have hfirst := (Settled.foldl (levels, false) h hbefore).1
      have hturn := (Settled.foldl (before.foldl (relax source target) (levels, false))
        hfirst (List.forall_mem_singleton.2 he)).1
      have hrest := Settled.foldl _ hturn hafter
      rw [hsplit, List.foldl_append, List.foldl_cons]
      intro l hl
      have hfixed := hrest.2 _ hsource
      rw [List.foldl_cons, List.foldl_nil] at hfixed
      rw [hfixed] at hl
      obtain ⟨m, hm, hlm⟩ := relax_satisfied hne l hl
      obtain ⟨n, hn, hmn⟩ := foldl_rises _ _ after _ _ m hm
      exact ⟨n, hn, hlm.trans_le hmn⟩

/-! ## All passes -/

theorem passes_of_satisfied {levels : List (α × Nat)}
    (h : ∀ e ∈ edges, Satisfied source target levels e) (count : Nat) :
    passes source target edges count levels = levels := by
  have hpass : ∀ rest : List ι, (∀ e ∈ rest, e ∈ edges) →
      rest.foldl (relax source target) (levels, false) = (levels, false) := by
    intro rest hrest
    induction rest with
    | nil => rfl
    | cons e rest ih =>
        rw [List.foldl_cons, relax_of_satisfied (h e (hrest e List.mem_cons_self))]
        exact ih fun e he => hrest e (List.mem_cons_of_mem _ he)
  cases count with
  | zero => rfl
  | succ count =>
      rw [passes, hpass edges fun _ he => he]
      rfl

theorem passes_rises (count : Nat) (levels : List (α × Nat)) :
    Rises levels (passes source target edges count levels) := by
  induction count generalizing levels with
  | zero => exact .refl levels
  | succ count ih =>
      have hpass := foldl_rises source target edges (levels, false)
      rw [passes]
      dsimp only
      split
      · exact hpass.trans (ih _)
      · exact hpass

omit [DecidableEq α] in
/-- One of two nodes that stand in this order is early if the other one is. -/
theorem mem_of_before {a b : α} {done rest : List α} (hnodup : (done ++ rest).Nodup)
    (h : [a, b].Sublist (done ++ rest)) (hb : b ∈ done) : a ∈ done := by
  obtain ⟨early, late, hpair, hearly, hlate⟩ := List.sublist_append_iff.1 h
  cases early with
  | nil =>
      have hmem : b ∈ late := by
        rw [List.nil_append] at hpair
        rw [← hpair]
        exact List.mem_cons_of_mem a List.mem_cons_self
      exact absurd rfl ((List.nodup_append.1 hnodup).2.2 b hb b (hlate.subset hmem))
  | cons c early =>
      rw [(List.cons.inj hpair).1]
      exact hearly.subset List.mem_cons_self

theorem passes_settled {done rest : List α} {count : Nat} {levels : List (α × Nat)}
    (hnodup : (done ++ rest).Nodup)
    (horder : ∀ e ∈ edges, [source e, target e].Sublist (done ++ rest))
    (hsettled : Settled source target edges (· ∈ done) levels) (hcount : rest.length ≤ count) :
    ∀ e ∈ edges, Satisfied source target (passes source target edges count levels) e := by
  induction rest generalizing done count levels with
  | nil =>
      have hall : ∀ e ∈ edges, Satisfied source target levels e := fun e he =>
        hsettled.satisfied e he (by simpa using (horder e he).subset (by simp))
      rw [passes_of_satisfied hall]
      exact hall
  | cons v rest ih =>
      cases count with
      | zero => cases hcount
      | succ count =>
          have hv : v ∉ done := fun hmem =>
            (List.nodup_append.1 hnodup).2.2 v hmem v List.mem_cons_self rfl
          have hsplit : done ++ v :: rest = done ++ [v] ++ rest := by
            rw [List.append_assoc, List.singleton_append]
          rw [hsplit] at hnodup horder
          have hin : ∀ e ∈ edges, target e = v → source e ∈ done := by
            intro e he htarget
            have hbefore := horder e he
            have hmem := mem_of_before hnodup hbefore (htarget ▸ by simp)
            rcases List.mem_append.1 hmem with hmem | hmem
            · exact hmem
            · have hpair := hnodup.sublist hbefore
              rw [List.mem_singleton.1 hmem, htarget] at hpair
              simp at hpair
          rw [passes]
          dsimp only
          split
          · refine ih hnodup horder ?_ (Nat.le_of_succ_le_succ hcount)
            have hpass := hsettled.pass hv hin
            simpa only [List.mem_append, List.mem_singleton] using hpass
          · next hchanged =>
              obtain ⟨hlevels, hall⟩ := foldl_unchanged (by simpa using hchanged)
              rw [hlevels]
              exact hall

/-- Where the edges agree with an order of the nodes, a pass for each node satisfies them all. -/
theorem passes_satisfied {order : List α} {count : Nat} (hnodup : order.Nodup)
    (horder : ∀ e ∈ edges, [source e, target e].Sublist order) (hcount : order.length ≤ count)
    (levels : List (α × Nat)) :
    ∀ e ∈ edges, Satisfied source target (passes source target edges count levels) e := by
  have hnone : Settled source target edges (· ∈ ([] : List α)) levels :=
    ⟨fun _ _ h => absurd h List.not_mem_nil, fun _ _ h => absurd h List.not_mem_nil⟩
  exact passes_settled (by simpa using hnodup) (by simpa using horder) hnone hcount

/-- From a node with a level every node that can be reached gets one. -/
theorem level_of_reached {levels : List (α × Nat)}
    (h : ∀ e ∈ edges, Satisfied source target levels e) {start x : α} {l : Nat}
    (hstart : levels.lookup start = some l)
    (hreach : ReflTransGen (fun a b => ∃ e ∈ edges, source e = a ∧ target e = b) start x) :
    ∃ m, levels.lookup x = some m := by
  induction hreach with
  | refl => exact ⟨l, hstart⟩
  | tail _ hstep ih =>
      obtain ⟨e, he, rfl, rfl⟩ := hstep
      obtain ⟨m, hm⟩ := ih
      obtain ⟨n, hn, -⟩ := h e he m hm
      exact ⟨n, hn⟩

end Layers
