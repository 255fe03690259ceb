import Mathlib.Data.List.Sort
import PiWorkflows.Workflows.SessionTranscript

/-!
# The blocks of a message

A message keeps its blocks in a map from their index and shows them sorted. Lists
that are sorted and hold what a map holds are equal (`Holds.unique`), so what is
written through the map can be followed in the list.
-/

namespace PiWorkflows.SessionReplay

/-- A list shows what a map from indexes to blocks holds. -/
structure Holds (blocks : List TemporalContentBlock) (look : Nat → Option TemporalContentBlock) :
    Prop where
  sorted : blocks.Pairwise fun a b => a.contentIndex < b.contentIndex
  keyed : ∀ i b, look i = some b → b.contentIndex = i
  mem : ∀ b, b ∈ blocks ↔ look b.contentIndex = some b

variable {blocks blocks' : List TemporalContentBlock}
  {look : Nat → Option TemporalContentBlock} {i : Nat} {kind : BlockKind}

theorem Holds.unique (h : Holds blocks look) (h' : Holds blocks' look) : blocks = blocks' := by
  have hnodup : ∀ {l : List TemporalContentBlock},
      (l.Pairwise fun a b => a.contentIndex < b.contentIndex) → l.Nodup := by
    intro l hl
    rw [List.nodup_iff_pairwise_ne]
    refine hl.imp ?_
    rintro a b hlt rfl
    exact Nat.lt_irrefl _ hlt
  have hperm : blocks.Perm blocks' :=
    (List.perm_ext_iff_of_nodup (hnodup h.sorted) (hnodup h'.sorted)).2 fun b =>
      (h.mem b).trans (h'.mem b).symm
  exact hperm.eq_of_pairwise (fun a b _ _ hab hba => absurd hba (Nat.lt_asymm hab)) h.sorted h'.sorted

theorem holds_nil : Holds [] fun _ => none where
  sorted := List.Pairwise.nil
  keyed _ _ h := by cases h
  mem _ := by simp

theorem Holds.blockIn (h : Holds blocks look) (i : Nat) : blockIn blocks i = look i := by
  unfold SessionReplay.blockIn
  cases hi : look i with
  | none =>
      rw [List.find?_eq_none]
      intro b hb heq
      rw [decide_eq_true_eq] at heq
      have hthere := (h.mem b).1 hb
      rw [heq, hi] at hthere
      cases hthere
  | some b =>
      have hindex := h.keyed i b hi
      have hmem : b ∈ blocks := (h.mem b).2 (hindex.symm ▸ hi)
      cases hfound : blocks.find? fun block => decide (block.contentIndex = i) with
      | none =>
          have hnone := List.find?_eq_none.1 hfound b hmem
          exact absurd (decide_eq_true hindex) hnone
      | some c =>
          have hc := List.find?_some hfound
          rw [decide_eq_true_eq] at hc
          have hthere := (h.mem c).1 (List.mem_of_find?_eq_some hfound)
          rw [hc, hi] at hthere
          exact hthere.symm

/-- A block behind the others. -/
theorem Holds.append (h : Holds blocks look) {c : TemporalContentBlock}
    (hbehind : ∀ b ∈ blocks, b.contentIndex < c.contentIndex) :
    Holds (blocks ++ [c]) fun j => if j = c.contentIndex then some c else look j := by
  refine ⟨?_, fun j b hb => ?_, fun b => ?_⟩
  · rw [List.pairwise_append]
    refine ⟨h.sorted, List.pairwise_singleton _ _, fun a ha b hb => ?_⟩
    rw [List.mem_singleton.1 hb]
    exact hbehind a ha
  · split at hb
    · next hj =>
        obtain rfl := Option.some.inj hb
        exact hj.symm
    · exact h.keyed j b hb
  · rw [List.mem_append, List.mem_singleton]
    by_cases hindex : b.contentIndex = c.contentIndex
    · have hnot : b ∉ blocks := fun hb => Nat.ne_of_lt (hbehind b hb) hindex
      rw [if_pos hindex, Option.some.injEq, or_iff_right hnot, eq_comm]
    · have hne : b ≠ c := fun heq => hindex (congrArg _ heq)
      rw [if_neg hindex, or_iff_left hne, h.mem]

theorem Holds.withBlock (h : Holds blocks look) (i : Nat) (kind : BlockKind) :
    Holds (withBlock blocks i kind)
      fun j => if j = i then some ((look i).getD { contentIndex := i, kind }) else look j := by
  unfold SessionReplay.withBlock
  rw [h.blockIn]
  cases hi : look i with
  | some b =>
      refine ⟨h.sorted, fun j c hc => ?_, fun c => (h.mem c).trans ?_⟩
      · split at hc
        · next hj =>
            obtain rfl := Option.some.inj hc
            exact (h.keyed i b hi).trans hj.symm
        · exact h.keyed j c hc
      · split
        · next hc => rw [hc, hi, Option.getD_some]
        · exact Iff.rfl
  | none =>
      have hne : ∀ b ∈ blocks, b.contentIndex ≠ i := by
        intro b hb heq
        have hthere := (h.mem b).1 hb
        rw [heq, hi] at hthere
        cases hthere
      refine ⟨?_, fun j c hc => ?_, fun c => ?_⟩
      · rw [List.pairwise_append, List.pairwise_cons]
        refine ⟨h.sorted.filter _, ⟨fun b hb => ?_, h.sorted.filter _⟩, fun a ha b hb => ?_⟩
        · exact of_decide_eq_true (List.mem_filter.1 hb).2
        · have hlt : a.contentIndex < i := of_decide_eq_true (List.mem_filter.1 ha).2
          rcases List.mem_cons.1 hb with rfl | hb
          · exact hlt
          · exact hlt.trans (of_decide_eq_true (List.mem_filter.1 hb).2)
      · split at hc
        · next hj =>
            obtain rfl := Option.some.inj hc
            exact hj.symm
        · exact h.keyed j c hc
      · rw [List.mem_append, List.mem_cons, List.mem_filter, List.mem_filter, decide_eq_true_eq,
          decide_eq_true_eq, Option.getD_none]
        by_cases hc : c.contentIndex = i
        · rw [if_pos hc, Option.some.injEq]
          constructor
          · rintro (⟨hmem, -⟩ | rfl | ⟨hmem, -⟩)
            · exact absurd hc (hne c hmem)
            · rfl
            · exact absurd hc (hne c hmem)
          · exact fun heq => .inr (.inl heq.symm)
        · rw [if_neg hc, ← h.mem c]
          constructor
          · rintro (⟨hmem, -⟩ | rfl | ⟨hmem, -⟩)
            · exact hmem
            · exact absurd rfl hc
            · exact hmem
          · intro hmem
            rcases Nat.lt_or_gt_of_ne hc with hlt | hgt
            · exact .inl ⟨hmem, hlt⟩
            · exact .inr (.inr ⟨hmem, hgt⟩)

theorem Holds.editBlock (h : Holds blocks look) (i : Nat)
    {g : TemporalContentBlock → TemporalContentBlock}
    (hg : ∀ b, (g b).contentIndex = b.contentIndex) :
    Holds (editBlock blocks i g) fun j => if j = i then (look i).map g else look j := by
  have hindex : ∀ b : TemporalContentBlock,
      (if b.contentIndex = i then g b else b).contentIndex = b.contentIndex := by
    intro b
    split
    · exact hg b
    · rfl
  refine ⟨?_, fun j c hc => ?_, fun c => ?_⟩
  · rw [SessionReplay.editBlock, List.pairwise_map]
    exact h.sorted.imp fun hlt => by rwa [hindex, hindex]
  · split at hc
    · next hj =>
        obtain ⟨b, hb, rfl⟩ := Option.map_eq_some_iff.1 hc
        rw [hg, h.keyed i b hb, hj]
    · exact h.keyed j c hc
  · rw [SessionReplay.editBlock, List.mem_map]
    constructor
    · rintro ⟨b, hb, rfl⟩
      have hthere := (h.mem b).1 hb
      by_cases hi : b.contentIndex = i
      · rw [if_pos hi, hg, if_pos hi, ← hi, hthere, Option.map_some]
      · rw [if_neg hi, if_neg hi, hthere]
    · intro hc
      by_cases hi : c.contentIndex = i
      · rw [if_pos hi] at hc
        obtain ⟨b, hb, rfl⟩ := Option.map_eq_some_iff.1 hc
        have hkey := h.keyed i b hb
        exact ⟨b, (h.mem b).2 (hkey.symm ▸ hb), if_pos hkey⟩
      · rw [if_neg hi] at hc
        exact ⟨c, (h.mem c).2 hc, if_neg hi⟩

/-! ## Sorted by index -/

variable {memory : Memory} {message : MutableMessage}

/-- What a map of addresses holds. -/
def lookBlock (memory : Memory) (blocks : Table Nat Nat) (i : Nat) : Option TemporalContentBlock :=
  (blocks.get? i).map memory.block

theorem holds_sortedBlocks
    (hindexed : ∀ i a, message.blocks.get? i = some a → (memory.block a).contentIndex = i) :
    Holds ((Folding.sortedBlocks memory message).map memory.block)
      (lookBlock memory message.blocks) := by
  have hkeyed : ∀ i b, lookBlock memory message.blocks i = some b → b.contentIndex = i := by
    intro i b hb
    obtain ⟨a, ha, rfl⟩ := Option.map_eq_some_iff.1 hb
    exact hindexed i a ha
  have hmem : ∀ a, a ∈ Folding.sortedBlocks memory message ↔
      ∃ i, message.blocks.get? i = some a := by
    intro a
    rw [Folding.sortedBlocks, List.mem_mergeSort, List.mem_map]
    constructor
    · rintro ⟨⟨i, a⟩, he, rfl⟩
      exact ⟨i, Table.mem_rows.1 he⟩
    · rintro ⟨i, hi⟩
      exact ⟨(i, a), Table.mem_rows.2 hi, rfl⟩
  refine ⟨?_, hkeyed, fun b => ?_⟩
  · rw [List.pairwise_map]
    have hordered : (Folding.sortedBlocks memory message).Pairwise fun a b =>
        decide ((memory.block a).contentIndex ≤ (memory.block b).contentIndex) = true := by
      refine List.pairwise_mergeSort (fun a b c hab hbc => ?_) (fun a b => ?_) _
      · rw [decide_eq_true_eq] at *
        exact Nat.le_trans hab hbc
      · simp [Nat.le_total]
    have hdistinct : (Folding.sortedBlocks memory message).Pairwise fun a b =>
        (memory.block a).contentIndex ≠ (memory.block b).contentIndex := by
      have hperm := List.mergeSort_perm (message.blocks.rows.map Prod.snd)
        fun a b => decide ((memory.block a).contentIndex ≤ (memory.block b).contentIndex)
      refine hperm.symm.pairwise ?_ fun h => h.symm
      rw [List.pairwise_map]
      have hnodup := message.blocks.nodup
      rw [List.nodup_iff_pairwise_ne, List.pairwise_map] at hnodup
      refine hnodup.imp_of_mem fun ha hb hne => ?_
      rwa [hindexed _ _ (Table.mem_rows.1 ha), hindexed _ _ (Table.mem_rows.1 hb)]
    exact (hordered.and hdistinct).imp fun h => Nat.lt_of_le_of_ne (of_decide_eq_true h.1) h.2
  · rw [List.mem_map]
    constructor
    · rintro ⟨a, ha, rfl⟩
      obtain ⟨i, hi⟩ := (hmem a).1 ha
      rw [lookBlock, hindexed i a hi, hi, Option.map_some]
    · intro hb
      obtain ⟨a, ha, rfl⟩ := Option.map_eq_some_iff.1 hb
      exact ⟨a, (hmem a).2 ⟨_, ha⟩, rfl⟩

end PiWorkflows.SessionReplay
