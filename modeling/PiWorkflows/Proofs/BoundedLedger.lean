import Mathlib.Algebra.Order.Ring.Rat
import PiWorkflows.Workflows.PromptEvidence

/-!
# The bounded ledger

`boundLedger` looks for the shortest prefix of outputs to collapse, and a
reference may be larger than what it stands for. What the loop has tried so far
is every collapse up to its index, none of which fits, and it holds the smallest
of them (`Tried`). So it returns the first that fits or, when none does, the
smallest of all (`boundLedger_spec`).
-/

namespace PiWorkflows

/-- An entry with its output collapsed, if it is no reference yet. -/
def collapse (host : EvidenceHost) (entry : EvidenceLedgerEntry) : EvidenceLedgerEntry :=
  if isEvidenceRef entry.output then entry
  else { entry with output := (evidenceRef host entry.output).value }

/-- The ledger with the outputs of its first entries collapsed. -/
def kCollapse (host : EvidenceHost) (entries : List EvidenceLedgerEntry) (k : Nat) :
    List EvidenceLedgerEntry :=
  (entries.take k).map (collapse host) ++ entries.drop k

theorem kCollapse_zero (host : EvidenceHost) (entries : List EvidenceLedgerEntry) :
    kCollapse host entries 0 = entries := by
  simp [kCollapse]

theorem getElem?_kCollapse (host : EvidenceHost) (entries : List EvidenceLedgerEntry) (k : Nat) :
    (kCollapse host entries k)[k]? = entries[k]? := by
  rw [kCollapse, List.getElem?_append]
  split
  · next h =>
      rw [List.length_map, List.length_take] at h
      omega
  · next h =>
      rw [List.length_map, List.length_take] at h ⊢
      rw [List.getElem?_drop]
      rcases Nat.lt_or_ge k entries.length with hk | hk
      · congr 1
        omega
      · rw [List.getElem?_eq_none (by omega), List.getElem?_eq_none hk]

/-- One more entry of the list is collapsed. -/
theorem kCollapse_succ (host : EvidenceHost) {entries : List EvidenceLedgerEntry} {k : Nat}
    {entry : EvidenceLedgerEntry} (h : entries[k]? = some entry) :
    kCollapse host entries (k + 1) = (kCollapse host entries k).set k (collapse host entry) := by
  obtain ⟨hk, hget⟩ := List.getElem?_eq_some_iff.1 h
  have hlength : ((entries.take k).map (collapse host)).length = k := by
    rw [List.length_map, List.length_take]
    omega
  have hdrop : entries.drop k = entry :: entries.drop (k + 1) := by
    rw [List.drop_eq_getElem_cons hk, hget]
  rw [kCollapse, kCollapse, List.take_add_one, h, hdrop, List.map_append, List.append_assoc,
    List.set_append_right _ _ (by omega), hlength, Nat.sub_self]
  rfl

theorem kCollapse_of_ref (host : EvidenceHost) {entries : List EvidenceLedgerEntry} {k : Nat}
    {entry : EvidenceLedgerEntry} (h : entries[k]? = some entry)
    (href : isEvidenceRef entry.output = true) :
    kCollapse host entries (k + 1) = kCollapse host entries k := by
  have hget := getElem?_kCollapse host entries k
  rw [h] at hget
  rw [kCollapse_succ host h, collapse, if_pos href]
  obtain ⟨hk, heq⟩ := List.getElem?_eq_some_iff.1 hget
  rw [← heq, List.set_getElem_self]

/-- What the loop knows at its index: every collapse up to it was too large, and `best`, of this
size, is the smallest of them. -/
structure Tried (host : EvidenceHost) (entries : List EvidenceLedgerEntry) (budgetChars : ℚ)
    (index : Nat) (bestChars : Nat) (best : List EvidenceLedgerEntry) : Prop where
  inside : index ≤ entries.length
  large : ∀ k < index, budgetChars < ledgerChars (kCollapse host entries k)
  attained : ∃ k ≤ index, best = kCollapse host entries k
  size : ledgerChars best = bestChars
  least : ∀ k ≤ index, bestChars ≤ ledgerChars (kCollapse host entries k)

/-- What `boundLedger` may return. -/
structure LedgerBounded (host : EvidenceHost) (entries : List EvidenceLedgerEntry) (budgetChars : ℚ)
    (result : List EvidenceLedgerEntry) : Prop where
  collapsed : ∃ k ≤ entries.length, result = kCollapse host entries k
  noLarger : ledgerChars result ≤ ledgerChars entries
  first : ∀ k ≤ entries.length, ledgerChars (kCollapse host entries k) ≤ budgetChars →
    (∀ j < k, budgetChars < ledgerChars (kCollapse host entries j)) →
      result = kCollapse host entries k
  smallest : (∀ k ≤ entries.length, budgetChars < ledgerChars (kCollapse host entries k)) →
    ∀ k ≤ entries.length, ledgerChars result ≤ ledgerChars (kCollapse host entries k)

section

variable {host : EvidenceHost} {entries : List EvidenceLedgerEntry} {budgetChars : ℚ}

/-- The first collapse that fits is the result. -/
theorem bounded_of_fits {k : Nat} (hk : k ≤ entries.length)
    (hfits : ledgerChars (kCollapse host entries k) ≤ budgetChars)
    (hlarge : ∀ j < k, budgetChars < ledgerChars (kCollapse host entries j)) :
    LedgerBounded host entries budgetChars (kCollapse host entries k) := by
  refine ⟨⟨k, hk, rfl⟩, ?_, ?_, fun hnone => absurd hfits (not_le.2 (hnone k hk))⟩
  · rcases Nat.eq_zero_or_pos k with rfl | hpos
    · rw [kCollapse_zero]
    · have hinput := hlarge 0 hpos
      rw [kCollapse_zero] at hinput
      exact_mod_cast le_of_lt (lt_of_le_of_lt hfits hinput)
  · intro j _ hj hfirst
    rcases Nat.lt_trichotomy j k with hlt | rfl | hgt
    · exact absurd hj (not_le.2 (hlarge j hlt))
    · rfl
    · exact absurd hfits (not_le.2 (hfirst k hgt))

theorem Tried.step {index bestChars : Nat} {best : List EvidenceLedgerEntry}
    (h : Tried host entries budgetChars index bestChars best) (hindex : index < entries.length)
    (hlarge : budgetChars < ledgerChars (kCollapse host entries index))
    (hbest : bestChars ≤ ledgerChars (kCollapse host entries (index + 1))) :
    Tried host entries budgetChars (index + 1) bestChars best where
  inside := hindex
  large k hk := by
    rcases Nat.lt_succ_iff_lt_or_eq.1 hk with hlt | rfl
    · exact h.large k hlt
    · exact hlarge
  attained := by
    obtain ⟨k, hk, hbest⟩ := h.attained
    exact ⟨k, by omega, hbest⟩
  size := h.size
  least k hk := by
    rcases Nat.le_succ_iff.1 hk with hle | rfl
    · exact h.least k hle
    · exact hbest

/-- The new collapse is smaller than all before. -/
theorem Tried.improve {index bestChars : Nat} {best : List EvidenceLedgerEntry}
    (h : Tried host entries budgetChars index bestChars best) (hindex : index < entries.length)
    (hlarge : budgetChars < ledgerChars (kCollapse host entries index))
    (hbest : ledgerChars (kCollapse host entries (index + 1)) < bestChars) :
    Tried host entries budgetChars (index + 1)
      (ledgerChars (kCollapse host entries (index + 1))) (kCollapse host entries (index + 1)) where
  inside := hindex
  large k hk := by
    rcases Nat.lt_succ_iff_lt_or_eq.1 hk with hlt | rfl
    · exact h.large k hlt
    · exact hlarge
  attained := ⟨index + 1, Nat.le_refl _, rfl⟩
  size := rfl
  least k hk := by
    rcases Nat.le_succ_iff.1 hk with hle | rfl
    · exact Nat.le_trans (Nat.le_of_lt hbest) (h.least k hle)
    · exact Nat.le_refl _

/-- The loop stops on its test only before its first collapse, or at the end. -/
theorem bounded_of_end {index bestChars : Nat} {best : List EvidenceLedgerEntry}
    (h : Tried host entries budgetChars index bestChars best) (hend : index = entries.length)
    (hlarge : budgetChars < ledgerChars (kCollapse host entries index)) :
    LedgerBounded host entries budgetChars best := by
  have hall : ∀ k ≤ entries.length, budgetChars < ledgerChars (kCollapse host entries k) := by
    intro k hk
    rcases Nat.lt_or_eq_of_le hk with hlt | heq
    · exact h.large k (by omega)
    · rw [heq, ← hend]
      exact hlarge
  obtain ⟨k, hk, hbest⟩ := h.attained
  refine ⟨⟨k, by omega, hbest⟩, ?_, fun k hk hfits => absurd hfits (not_le.2 (hall k hk)), ?_⟩
  · have hzero := h.least 0 (Nat.zero_le _)
    rwa [kCollapse_zero, ← h.size] at hzero
  · intro _ k hk
    rw [h.size]
    exact h.least k (by omega)

theorem boundLedgerFrom_spec (remaining : Nat) {index smallestChars : Nat}
    {smallest : Option (List EvidenceLedgerEntry)}
    (hremaining : index + remaining = entries.length)
    (htried : Tried host entries budgetChars index smallestChars (smallest.getD entries))
    (hfits : ledgerChars (kCollapse host entries index) ≤ budgetChars → index = 0 ∧ smallest = none) :
    LedgerBounded host entries budgetChars
      (boundLedgerFrom host entries budgetChars remaining index (kCollapse host entries index)
        (ledgerChars (kCollapse host entries index)) smallestChars smallest) := by
  induction remaining generalizing index smallestChars smallest with
  | zero =>
      rw [boundLedgerFrom]
      rcases le_or_gt (ledgerChars (kCollapse host entries index) : ℚ) budgetChars with hle | hlarge
      · obtain ⟨rfl, rfl⟩ := hfits hle
        have hbounded := bounded_of_fits (Nat.zero_le _) hle fun j hj => absurd hj (Nat.not_lt_zero j)
        rwa [kCollapse_zero] at hbounded
      · exact bounded_of_end htried (by omega) hlarge
  | succ remaining ih =>
      have hindex : index < entries.length := by omega
      rw [boundLedgerFrom]
      split
      · next hlarge =>
          have hget : entries[index]? = some entries[index] := List.getElem?_eq_getElem hindex
          rw [getElem?_kCollapse, hget]
          dsimp only
          split
          · next href =>
              have hsame := kCollapse_of_ref host hget href
              have hstep := htried.step hindex hlarge
                (by rw [hsame]; exact htried.least index le_rfl)
              have hnone : (ledgerChars (kCollapse host entries (index + 1)) : ℚ) ≤ budgetChars →
                  index + 1 = 0 ∧ smallest = none := fun hle => by
                rw [hsame] at hle
                exact absurd hle (not_le.2 hlarge)
              have hnext := ih (by omega) hstep hnone
              rwa [hsame] at hnext
          · next hvalue =>
              have hcollapse : { entries[index] with
                  output := (evidenceRef host entries[index].output).value } =
                  collapse host entries[index] := by
                rw [collapse, if_neg hvalue]
              rw [hcollapse, ← kCollapse_succ host hget]
              split
              · next hle =>
                  refine bounded_of_fits hindex hle fun j hj => ?_
                  rcases Nat.lt_succ_iff_lt_or_eq.1 hj with hlt | rfl
                  · exact htried.large j hlt
                  · exact hlarge
              · next hnext =>
                  split
                  · next hless =>
                      exact ih (by omega) (htried.improve hindex hlarge hless)
                        (fun hle => absurd hle hnext)
                  · next hmore =>
                      exact ih (by omega) (htried.step hindex hlarge (Nat.le_of_not_lt hmore))
                        (fun hle => absurd hle hnext)
      · next hle =>
          obtain ⟨rfl, rfl⟩ := hfits (not_lt.1 hle)
          have hbounded := bounded_of_fits (Nat.zero_le _) (not_lt.1 hle)
            fun j hj => absurd hj (Nat.not_lt_zero j)
          rwa [kCollapse_zero] at hbounded

end

/-- The ledger that `boundLedger` returns is a collapse of its input, in order and no larger: the
first that fits the budget, or the smallest when none fits. -/
theorem boundLedger_spec (host : EvidenceHost) (entries : List EvidenceLedgerEntry)
    (budgetChars : ℚ) :
    LedgerBounded host entries budgetChars (boundLedger host entries budgetChars) := by
  have hstart : Tried host entries budgetChars 0 (ledgerChars entries) (Option.getD none entries) := {
    inside := Nat.zero_le _
    large := fun k hk => absurd hk (Nat.not_lt_zero k)
    attained := ⟨0, Nat.le_refl _, (kCollapse_zero host entries).symm⟩
    size := rfl
    least := fun k hk => by rw [Nat.le_zero.1 hk, kCollapse_zero] }
  have hrun := boundLedgerFrom_spec entries.length (Nat.zero_add _) hstart fun _ => ⟨rfl, rfl⟩
  rwa [kCollapse_zero] at hrun

end PiWorkflows
