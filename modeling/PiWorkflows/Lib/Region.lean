import Mathlib.Data.List.Chain
import Mathlib.Data.List.Induction
import Mathlib.Data.Set.Defs

/-!
# Regions that have one entry

A region of a graph that edges lead into only at its entry, and out of only from
its exits. A walk that stands inside has passed the entry and not left since
(`Region.since_entry`). A walk that has passed the entry and none of the exits
is still inside (`Region.stays`).
-/

universe u

/-- A set of nodes with the node through which it is entered and those through which it is left. -/
structure Region {α : Type u} (next : α → α → Prop) where
  inside : Set α
  entry : α
  exits : Set α
  enters : ∀ {a b}, next a b → b ∈ inside → a ∈ inside ∨ b = entry
  leaves : ∀ {a b}, next a b → a ∈ inside → a ∉ exits → b ∈ inside ∧ b ≠ entry

namespace Region

variable {α : Type u} {next : α → α → Prop} (region : Region next)

/-- A walk that does not start inside but at the entry. -/
def StartsOutside (walk : List α) : Prop :=
  ∀ a ∈ walk.head?, a ∈ region.inside → a = region.entry

variable {region}

/-- Whoever stands inside has come in through the entry and has stayed since. -/
theorem since_entry {walk : List α} {a : α} (hwalk : (walk ++ [a]).IsChain next)
    (hstart : region.StartsOutside (walk ++ [a])) (ha : a ∈ region.inside) :
    ∃ before after, walk ++ [a] = before ++ region.entry :: after ∧
      ∀ b ∈ after, b ∈ region.inside := by
  induction walk using List.reverseRecOn generalizing a with
  | nil =>
      obtain rfl := hstart a rfl ha
      exact ⟨[], [], rfl, fun _ h => absurd h List.not_mem_nil⟩
  | append_singleton earlier last ih =>
      rw [List.append_assoc, List.isChain_append] at hwalk
      obtain ⟨hearlier, hstep, hjoin⟩ := hwalk
      have hnext : next last a := List.isChain_pair.1 hstep
      rcases region.enters hnext ha with hlast | rfl
      · have hwalk' : (earlier ++ [last]).IsChain next := by
          rw [List.isChain_append]
          exact ⟨hearlier, List.isChain_singleton last, hjoin⟩
        have hstart' : region.StartsOutside (earlier ++ [last]) := by
          intro b hb
          exact hstart b (List.mem_head?_append_of_mem_head? hb)
        obtain ⟨before, after, hsplit, hafter⟩ := ih hwalk' hstart' hlast
        refine ⟨before, after ++ [a], ?_, ?_⟩
        · rw [hsplit, List.append_assoc]
          rfl
        · rw [List.forall_mem_append]
          exact ⟨hafter, List.forall_mem_singleton.2 ha⟩
      · exact ⟨earlier ++ [last], [], rfl, fun _ h => absurd h List.not_mem_nil⟩

/-- Whoever was outside and stands inside now has passed the entry in between. -/
theorem entered_between {walk : List α} {a b : α} (hwalk : (a :: walk ++ [b]).IsChain next)
    (ha : a ∉ region.inside) (hb : b ∈ region.inside) : region.entry ∈ walk ++ [b] := by
  induction walk generalizing a with
  | nil =>
      rcases region.enters (List.isChain_pair.1 hwalk) hb with hbefore | rfl
      · exact absurd hbefore ha
      · exact List.mem_singleton_self region.entry
  | cons c rest ih =>
      rw [List.cons_append, List.cons_append, List.isChain_cons_cons] at hwalk
      by_cases hc : c ∈ region.inside
      · rcases region.enters hwalk.1 hc with hbefore | rfl
        · exact absurd hbefore ha
        · exact List.mem_cons_self
      · exact List.mem_cons_of_mem c (ih hwalk.2 hc)

/-- Whoever stands where every way out leads outside or back to the entry, and
stands inside later, has passed the entry in between. -/
theorem reentered {walk : List α} {a b : α} (hwalk : (a :: walk ++ [b]).IsChain next)
    (hleft : ∀ c, next a c → c ∈ region.inside → c = region.entry) (hb : b ∈ region.inside) :
    region.entry ∈ walk ++ [b] := by
  cases walk with
  | nil =>
      obtain rfl := hleft b (List.isChain_pair.1 hwalk) hb
      exact List.mem_singleton_self _
  | cons c rest =>
      rw [List.cons_append, List.cons_append, List.isChain_cons_cons] at hwalk
      by_cases hc : c ∈ region.inside
      · rw [← hleft c hwalk.1 hc]
        exact List.mem_cons_self
      · exact List.mem_cons_of_mem c (entered_between hwalk.2 hc hb)

/-- Whoever has come in and has not passed an exit is still inside, behind the entry. -/
theorem stays {walk : List α} {a b : α} (hwalk : (a :: walk ++ [b]).IsChain next)
    (ha : a ∈ region.inside) (hexits : ∀ c ∈ a :: walk, c ∉ region.exits) :
    b ∈ region.inside ∧ b ≠ region.entry := by
  induction walk generalizing a with
  | nil => exact region.leaves (List.isChain_pair.1 hwalk) ha (hexits a List.mem_cons_self)
  | cons c rest ih =>
      rw [List.cons_append, List.cons_append, List.isChain_cons_cons] at hwalk
      have hc := (region.leaves hwalk.1 ha (hexits a List.mem_cons_self)).1
      exact ih hwalk.2 hc fun d hd => hexits d (List.mem_cons_of_mem a hd)

end Region
