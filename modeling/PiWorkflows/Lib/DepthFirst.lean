import Mathlib.Data.List.Chain
import Mathlib.Data.List.Nodup
import Mathlib.Logic.Relation

/-!
# A depth-first search that tells which edges close a cycle

The search keeps the nodes it is in (gray, innermost first) and the ones it is done
with (black, latest first). An edge that leads from the innermost gray node to a gray
one closes a cycle and is marked; one that leads to a white node is followed.

Black nodes are finished in an order that every edge without a mark agrees with
(`Inv.ordered`), so these edges have no cycle. And what a visit blackens it reaches
without marked edges (`visit_spec`): an edge that was followed is never marked
afterwards, since its target is not gray again.

A visit is bounded by fuel, and one unit for each white node is enough.
-/

namespace DepthFirst

open Relation

universe u v w

variable {α : Type u} {ι : Type v}

structure State (α : Type u) (ι : Type v) where
  gray : List α
  black : List α
  marked : List ι

section

variable [DecidableEq α] (source target : ι → α) (edges : List ι)

/-- What a visit of a node does with one edge. -/
def follow (visit : α → State α ι → State α ι) (node : α) (st : State α ι) (edge : ι) :
    State α ι :=
  if source edge ≠ node then st
  else if target edge ∈ st.gray then { st with marked := edge :: st.marked }
  else if target edge ∈ st.black then st
  else visit (target edge) st

def visit : Nat → α → State α ι → State α ι
  | 0, _, st => st
  | fuel + 1, node, st =>
      let done := edges.foldl (follow source target (visit fuel) node)
        { st with gray := node :: st.gray }
      { done with gray := done.gray.erase node, black := node :: done.black }

/-- One visit after another, of the nodes that are still white. -/
def search (fuel : Nat) (nodes : List α) : State α ι :=
  nodes.foldl
    (fun st node =>
      if node ∈ st.gray ∨ node ∈ st.black then st else visit source target edges fuel node st)
    ⟨[], [], []⟩

/-- The nodes that were not visited yet. -/
def white (nodes : List α) (st : State α ι) : List α :=
  nodes.filter fun x => decide (x ∉ st.gray) && decide (x ∉ st.black)

end

/-! ## What holds all the time -/

section

variable (source target : ι → α) (edges : List ι)

/-- An edge of the graph. -/
def Step (a b : α) : Prop :=
  ∃ edge ∈ edges, source edge = a ∧ target edge = b

/-- An edge to a black node that is not marked. -/
def Free (st : State α ι) (a b : α) : Prop :=
  ∃ edge ∈ edges, edge ∉ st.marked ∧ source edge = a ∧ target edge = b ∧ b ∈ st.black

structure Inv (st : State α ι) : Prop where
  nodup : (st.gray ++ st.black).Nodup
  chain : st.gray.IsChain fun inner outer => Step source target edges outer inner
  /-- The target of an edge without a mark was finished before its source. -/
  ordered : ∀ edge ∈ edges, source edge ∈ st.black →
    edge ∈ st.marked ∨ [source edge, target edge].Sublist st.black
  closes : ∀ edge ∈ st.marked, ReflTransGen (Step source target edges) (target edge) (source edge)
  seen : ∀ edge ∈ st.marked, target edge ∈ st.gray ∨ target edge ∈ st.black

/-- What a part of the search leaves alone. The marks it sets are at no node of `outer`, and
they lead to no node that was black before. -/
structure Later (outer : List α) (st st' : State α ι) : Prop where
  gray : st'.gray = st.gray
  black : ∀ x ∈ st.black, x ∈ st'.black
  marked : ∀ edge ∈ st.marked, edge ∈ st'.marked
  fresh : ∀ edge ∈ st'.marked,
    edge ∈ st.marked ∨ (source edge ∉ outer ∧ target edge ∉ st.black)

end

variable {source target : ι → α} {edges : List ι}

theorem Later.refl (outer : List α) (st : State α ι) : Later source target outer st st :=
  ⟨rfl, fun _ h => h, fun _ h => h, fun _ h => .inl h⟩

theorem Later.trans {outer : List α} {a b c : State α ι} (h : Later source target outer a b)
    (h' : Later source target outer b c) : Later source target outer a c where
  gray := h'.gray.trans h.gray
  black x hx := h'.black x (h.black x hx)
  marked edge hedge := h'.marked edge (h.marked edge hedge)
  fresh edge hedge := by
    rcases h'.fresh edge hedge with hold | ⟨hsource, htarget⟩
    · exact h.fresh edge hold
    · exact .inr ⟨hsource, fun hblack => htarget (h.black _ hblack)⟩

theorem Later.mono {outer outer' : List α} {a b : State α ι} (h : Later source target outer a b)
    (hsub : ∀ x ∈ outer', x ∈ outer) : Later source target outer' a b :=
  { h with fresh := fun edge hedge =>
      (h.fresh edge hedge).imp_right fun hnew => ⟨fun hx => hnew.1 (hsub _ hx), hnew.2⟩ }

/-- What could be reached without marked edges still can. -/
theorem Later.free {outer : List α} {st st' : State α ι} (h : Later source target outer st st')
    {a b : α} (hfree : Free source target edges st a b) : Free source target edges st' a b := by
  obtain ⟨edge, hedge, hmark, hsource, rfl, hblack⟩ := hfree
  refine ⟨edge, hedge, fun hmarked => ?_, hsource, rfl, h.black _ hblack⟩
  rcases h.fresh edge hmarked with hold | ⟨-, hnot⟩
  · exact hmark hold
  · exact hnot hblack

theorem Later.reached {outer : List α} {st st' : State α ι} (h : Later source target outer st st')
    {a b : α} (hreach : ReflTransGen (Free source target edges st) a b) :
    ReflTransGen (Free source target edges st') a b :=
  ReflTransGen.mono (fun _ _ => h.free) a b hreach

theorem Later.white_le [DecidableEq α] {outer : List α} {st st' : State α ι}
    (h : Later source target outer st st') (nodes : List α) :
    (white nodes st').length ≤ (white nodes st).length := by
  refine (List.monotone_filter_right nodes fun x hx => ?_).length_le
  rw [Bool.and_eq_true, decide_eq_true_eq, decide_eq_true_eq] at hx ⊢
  rw [h.gray] at hx
  exact ⟨hx.1, fun hblack => hx.2 (h.black x hblack)⟩

/-- From every gray node there is a way to the innermost one. -/
theorem reach_innermost {node : α} {outer : List α}
    (h : (node :: outer).IsChain fun inner outer => Step source target edges outer inner) :
    ∀ x ∈ node :: outer, ReflTransGen (Step source target edges) x node := by
  induction outer generalizing node with
  | nil =>
      intro x hx
      rw [List.mem_singleton.1 hx]
  | cons next rest ih =>
      intro x hx
      obtain ⟨hstep, hrest⟩ := List.isChain_cons_cons.1 h
      rcases List.mem_cons.1 hx with rfl | hx
      · exact .refl
      · exact (ih hrest x hx).tail hstep

/-! ## One visit -/

/-- What the visit of a white node does. -/
structure Visited (source target : ι → α) (edges : List ι) (node : α) (st st' : State α ι) :
    Prop where
  inv : Inv source target edges st'
  later : Later source target st.gray st st'
  black : node ∈ st'.black
  reached : ∀ x ∈ st'.black, x ∈ st.black ∨ ReflTransGen (Free source target edges st') node x

/-- What the innermost node has done with some of the edges. -/
structure Followed (source target : ι → α) (edges : List ι) (node : α) (outer : List α)
    (some : List ι) (st st' : State α ι) : Prop where
  inv : Inv source target edges st'
  later : Later source target outer st st'
  settled : ∀ edge ∈ some, source edge = node → edge ∈ st'.marked ∨ target edge ∈ st'.black
  reached : ∀ x ∈ st'.black, x ∈ st.black ∨ ReflTransGen (Free source target edges st') node x

theorem Followed.refl {node : α} {outer : List α} {st : State α ι}
    (h : Inv source target edges st) : Followed source target edges node outer [] st st :=
  ⟨h, .refl outer st, fun _ hedge => absurd hedge List.not_mem_nil, fun _ hx => .inl hx⟩

theorem Followed.trans {node : α} {outer : List α} {first second : List ι} {a b c : State α ι}
    (h : Followed source target edges node outer first a b)
    (h' : Followed source target edges node outer second b c) :
    Followed source target edges node outer (first ++ second) a c where
  inv := h'.inv
  later := h.later.trans h'.later
  settled edge hedge hsource := by
    rcases List.mem_append.1 hedge with hedge | hedge
    · exact (h.settled edge hedge hsource).imp (h'.later.marked edge) (h'.later.black _)
    · exact h'.settled edge hedge hsource
  reached x hx := by
    rcases h'.reached x hx with hbefore | hreach
    · exact (h.reached x hbefore).imp_right h'.later.reached
    · exact .inr hreach

/-- An edge to a gray node is marked. -/
theorem followed_marked {st : State α ι} {edge : ι} {outer : List α}
    (hinv : Inv source target edges st) (hgray : st.gray = source edge :: outer)
    (htarget : target edge ∈ st.gray) :
    Followed source target edges (source edge) outer [edge] st
      { st with marked := edge :: st.marked } := by
  have hnodup := List.nodup_append.1 hinv.nodup
  refine ⟨⟨hinv.nodup, hinv.chain, ?_, ?_, ?_⟩, ⟨rfl, fun _ h => h, ?_, ?_⟩, ?_, fun _ h => .inl h⟩
  · exact fun e he hblack => (hinv.ordered e he hblack).imp_left (List.mem_cons_of_mem edge)
  · refine List.forall_mem_cons.2 ⟨?_, hinv.closes⟩
    have hchain := hinv.chain
    rw [hgray] at hchain htarget
    exact reach_innermost hchain _ htarget
  · exact List.forall_mem_cons.2 ⟨.inl htarget, hinv.seen⟩
  · exact fun e he => List.mem_cons_of_mem edge he
  · intro e he
    rcases List.mem_cons.1 he with rfl | he
    · rw [hgray, List.nodup_cons] at hnodup
      exact .inr ⟨hnodup.1.1, fun hblack => hnodup.2.2 _ (hgray ▸ htarget) _ hblack rfl⟩
    · exact .inl he
  · exact fun e he _ => .inl (List.mem_singleton.1 he ▸ List.mem_cons_self)

/-- An edge to a white node is followed, and it stays without a mark. -/
theorem followed_visited {st st' : State α ι} {edge : ι} {outer : List α} (hedge : edge ∈ edges)
    (hinv : Inv source target edges st) (hgray : st.gray = source edge :: outer)
    (hwhite : target edge ∉ st.gray ∧ target edge ∉ st.black)
    (h : Visited source target edges (target edge) st st') :
    Followed source target edges (source edge) outer [edge] st st' where
  inv := h.inv
  later := h.later.mono fun x hx => hgray ▸ List.mem_cons_of_mem _ hx
  settled e he _ := .inr (List.mem_singleton.1 he ▸ h.black)
  reached x hx := by
    have hfree : Free source target edges st' (source edge) (target edge) := by
      refine ⟨edge, hedge, fun hmarked => ?_, rfl, rfl, h.black⟩
      rcases h.later.fresh edge hmarked with hold | ⟨hsource, -⟩
      · exact (hinv.seen edge hold).elim hwhite.1 hwhite.2
      · exact hsource (hgray ▸ List.mem_cons_self)
    exact (h.reached x hx).imp_right fun hreach => hreach.head hfree

/-- The node that is done with all its edges turns black. -/
theorem Followed.visited [DecidableEq α] {node : α} {st done : State α ι}
    (h : Followed source target edges node st.gray edges { st with gray := node :: st.gray } done) :
    Visited source target edges node st
      { done with gray := done.gray.erase node, black := node :: done.black } := by
  have hgray : done.gray = node :: st.gray := h.later.gray
  have hinv := h.inv
  have hnodup := hinv.nodup
  have hchain := hinv.chain
  rw [hgray] at hnodup hchain
  rw [hgray, List.erase_cons_head]
  have hreached : ∀ x, ReflTransGen (Free source target edges done) node x →
      ReflTransGen (Free source target edges ⟨st.gray, node :: done.black, done.marked⟩) node x := by
    intro x
    refine ReflTransGen.mono ?_ node x
    rintro a b ⟨edge, hedge, hmark, hsource, htarget, hblack⟩
    exact ⟨edge, hedge, hmark, hsource, htarget, List.mem_cons_of_mem _ hblack⟩
  refine ⟨⟨?_, (List.isChain_cons.1 hchain).2, ?_, hinv.closes, ?_⟩, ⟨rfl, ?_, ?_, ?_⟩,
    List.mem_cons_self, ?_⟩
  · exact List.perm_middle.nodup_iff.2 hnodup
  · intro edge hedge hblack
    rcases List.mem_cons.1 hblack with hsource | hblack
    · refine (h.settled edge hedge hsource).imp_right fun htarget => ?_
      rw [hsource]
      exact .cons_cons node (List.singleton_sublist.2 htarget)
    · exact (hinv.ordered edge hedge hblack).imp_right fun hsub => hsub.cons node
  · intro edge hedge
    have hseen := hinv.seen edge hedge
    rw [hgray, List.mem_cons] at hseen
    rcases hseen with (rfl | htarget) | htarget
    · exact .inr List.mem_cons_self
    · exact .inl htarget
    · exact .inr (List.mem_cons_of_mem _ htarget)
  · exact fun x hx => List.mem_cons_of_mem _ (h.later.black x hx)
  · exact h.later.marked
  · exact h.later.fresh
  · intro x hx
    rcases List.mem_cons.1 hx with rfl | hx
    · exact .inr .refl
    · exact (h.reached x hx).imp_right (hreached x)

section

variable [DecidableEq α]

theorem follow_spec {nodes : List α} {fuel : Nat} {st : State α ι} {edge : ι} {node : α}
    {outer : List α} (htargets : ∀ e ∈ edges, target e ∈ nodes)
    (hvisit : ∀ (x : α) (s : State α ι), Inv source target edges s → x ∈ nodes → x ∉ s.gray →
      x ∉ s.black → (∀ a ∈ s.gray.head?, Step source target edges a x) →
      (white nodes s).length ≤ fuel →
      Visited source target edges x s (visit source target edges fuel x s))
    (hedge : edge ∈ edges) (hinv : Inv source target edges st) (hgray : st.gray = node :: outer)
    (hfuel : (white nodes st).length ≤ fuel) :
    Followed source target edges node outer [edge] st
      (follow source target (visit source target edges fuel) node st edge) := by
  unfold follow
  split
  · next hother =>
      refine ⟨hinv, .refl outer st, fun e he hsource => ?_, fun _ hx => .inl hx⟩
      exact absurd (List.mem_singleton.1 he ▸ hsource) hother
  · next hsource =>
      rw [not_not] at hsource
      subst hsource
      split
      · next htarget => exact followed_marked hinv hgray htarget
      · next htarget =>
          split
          · next hblack =>
              refine ⟨hinv, .refl outer st, fun e he _ => ?_, fun _ hx => .inl hx⟩
              exact .inr (List.mem_singleton.1 he ▸ hblack)
          · next hblack =>
              refine followed_visited hedge hinv hgray ⟨htarget, hblack⟩ ?_
              refine hvisit _ _ hinv (htargets edge hedge) htarget hblack ?_ hfuel
              rw [hgray]
              rintro a ⟨⟩
              exact ⟨edge, hedge, rfl, rfl⟩

/-- A pass over the edges, from wherever it has come to. -/
theorem foldl_follow_spec {nodes : List α} {fuel : Nat} {st : State α ι} {node : α}
    {outer : List α} (htargets : ∀ e ∈ edges, target e ∈ nodes)
    (hvisit : ∀ (x : α) (s : State α ι), Inv source target edges s → x ∈ nodes → x ∉ s.gray →
      x ∉ s.black → (∀ a ∈ s.gray.head?, Step source target edges a x) →
      (white nodes s).length ≤ fuel →
      Visited source target edges x s (visit source target edges fuel x s))
    {rest : List ι} (hrest : ∀ e ∈ rest, e ∈ edges) (hinv : Inv source target edges st)
    (hgray : st.gray = node :: outer) (hfuel : (white nodes st).length ≤ fuel) :
    Followed source target edges node outer rest st
      (rest.foldl (follow source target (visit source target edges fuel) node) st) := by
  induction rest generalizing st with
  | nil => exact .refl hinv
  | cons edge rest ih =>
      have hfirst := follow_spec htargets hvisit (hrest edge List.mem_cons_self) hinv hgray hfuel
      refine hfirst.trans (ih (fun e he => hrest e (List.mem_cons_of_mem _ he)) hfirst.inv ?_ ?_)
      · rw [hfirst.later.gray, hgray]
      · exact (hfirst.later.white_le nodes).trans hfuel

theorem white_lt {nodes : List α} {st : State α ι} {node : α} (hnode : node ∈ nodes)
    (hgray : node ∉ st.gray) (hblack : node ∉ st.black) :
    (white nodes { st with gray := node :: st.gray }).length < (white nodes st).length := by
  have hsub : (white nodes { st with gray := node :: st.gray }).Sublist (white nodes st) := by
    refine List.monotone_filter_right nodes fun x hx => ?_
    rw [Bool.and_eq_true, decide_eq_true_eq, decide_eq_true_eq] at hx ⊢
    exact ⟨fun hmem => hx.1 (List.mem_cons_of_mem _ hmem), hx.2⟩
  have hmem : node ∈ white nodes st := List.mem_filter.2 ⟨hnode, by simp [hgray, hblack]⟩
  refine lt_of_le_of_ne hsub.length_le fun heq => ?_
  rw [← hsub.eq_of_length heq] at hmem
  have hnot := (List.mem_filter.1 hmem).2
  simp at hnot

theorem visit_spec {nodes : List α} (htargets : ∀ e ∈ edges, target e ∈ nodes) {fuel : Nat}
    {node : α} {st : State α ι} (hinv : Inv source target edges st) (hnode : node ∈ nodes)
    (hgray : node ∉ st.gray) (hblack : node ∉ st.black)
    (hstep : ∀ a ∈ st.gray.head?, Step source target edges a node)
    (hfuel : (white nodes st).length ≤ fuel) :
    Visited source target edges node st (visit source target edges fuel node st) := by
  induction fuel generalizing node st with
  | zero =>
      have hlt := white_lt hnode hgray hblack
      omega
  | succ fuel ih =>
      have hlt := white_lt hnode hgray hblack
      have hentered : Inv source target edges { st with gray := node :: st.gray } := by
        refine ⟨?_, List.isChain_cons.2 ⟨hstep, hinv.chain⟩, hinv.ordered, hinv.closes, ?_⟩
        · exact List.nodup_cons.2 ⟨by simp [hgray, hblack], hinv.nodup⟩
        · exact fun e he => (hinv.seen e he).imp_left (List.mem_cons_of_mem node)
      have h : Followed source target edges node st.gray edges { st with gray := node :: st.gray }
          (edges.foldl (follow source target (visit source target edges fuel) node)
            { st with gray := node :: st.gray }) :=
        foldl_follow_spec htargets (fun x s hi hx hg hb hs hf => ih hi hx hg hb hs hf)
          (fun _ he => he) hentered rfl (by omega)
      exact h.visited

end

/-! ## The whole search -/

theorem inv_empty : Inv source target edges ⟨[], [], []⟩ :=
  ⟨List.nodup_nil, .nil, fun _ _ h => absurd h List.not_mem_nil, fun _ h => absurd h List.not_mem_nil,
    fun _ h => absurd h List.not_mem_nil⟩

/-- What is black when the search is nowhere is closed under the edges. -/
theorem Inv.closed {st : State α ι} (h : Inv source target edges st) (hgray : st.gray = [])
    {a b : α} (ha : a ∈ st.black) (hreach : ReflTransGen (Step source target edges) a b) :
    b ∈ st.black := by
  induction hreach with
  | refl => exact ha
  | tail _ hstep ih =>
      obtain ⟨edge, hedge, rfl, rfl⟩ := hstep
      rcases h.ordered edge hedge ih with hmarked | hbefore
      · have hseen := h.seen edge hmarked
        rw [hgray] at hseen
        exact hseen.resolve_left List.not_mem_nil
      · exact hbefore.subset (by simp)

section

variable [DecidableEq α]

/-- Where everything can be reached from the first node, its visit is the whole search. -/
theorem search_spec {fuel : Nat} {start : α} {nodes : List α}
    (htargets : ∀ e ∈ edges, target e ∈ start :: nodes) (hfuel : nodes.length < fuel)
    (hnodes : ∀ x ∈ nodes, ReflTransGen (Step source target edges) start x) :
    let st := search source target edges fuel (start :: nodes)
    Inv source target edges st ∧
      (∀ x, ReflTransGen (Step source target edges) start x → x ∈ st.black) ∧
      ∀ x ∈ st.black, ReflTransGen (Free source target edges st) start x := by
  intro st
  have hvisited : Visited source target edges start ⟨[], [], []⟩
      (visit source target edges fuel start ⟨[], [], []⟩) :=
    visit_spec htargets inv_empty List.mem_cons_self List.not_mem_nil List.not_mem_nil
      (fun _ h => absurd h (by simp)) ((List.length_filter_le _ _).trans hfuel)
  have hgray := hvisited.later.gray
  have hblack : ∀ x, ReflTransGen (Step source target edges) start x →
      x ∈ (visit source target edges fuel start ⟨[], [], []⟩).black := fun x hreach =>
    hvisited.inv.closed hgray hvisited.black hreach
  have hskip : ∀ rest : List α, (∀ x ∈ rest, x ∈ nodes) →
      rest.foldl (fun st node => if node ∈ st.gray ∨ node ∈ st.black then st
        else visit source target edges fuel node st)
        (visit source target edges fuel start ⟨[], [], []⟩) =
      visit source target edges fuel start ⟨[], [], []⟩ := by
    intro rest hrest
    induction rest with
    | nil => rfl
    | cons x rest ih =>
        have hx := hblack x (hnodes x (hrest x List.mem_cons_self))
        rw [List.foldl_cons, if_pos (.inr hx)]
        exact ih fun y hy => hrest y (List.mem_cons_of_mem x hy)
  have hst : st = visit source target edges fuel start ⟨[], [], []⟩ := by
    show List.foldl _ _ (start :: nodes) = _
    rw [List.foldl_cons, if_neg (by simp)]
    exact hskip nodes fun _ h => h
  rw [hst]
  exact ⟨hvisited.inv, hblack, fun x hx => (hvisited.reached x hx).resolve_left List.not_mem_nil⟩

theorem position_lt {l : List α} (hnodup : l.Nodup) {a b : α} (h : [a, b].Sublist l) :
    l.idxOf a < l.idxOf b := by
  induction l with
  | nil => cases h
  | cons x rest ih =>
      rw [List.nodup_cons] at hnodup
      cases h with
      | cons _ h =>
          have ha : a ≠ x := fun heq => hnodup.1 (heq ▸ h.subset (by simp))
          have hb : b ≠ x := fun heq => hnodup.1 (heq ▸ h.subset (by simp))
          rw [List.idxOf_cons_ne _ ha.symm, List.idxOf_cons_ne _ hb.symm]
          exact Nat.succ_lt_succ (ih hnodup.2 h)
      | cons_cons _ h =>
          have hb : b ≠ a := fun heq => hnodup.1 (heq ▸ h.subset (by simp))
          rw [List.idxOf_cons_self, List.idxOf_cons_ne _ hb.symm]
          exact Nat.succ_pos _

/-- Steps that agree with an order, such as `Inv.ordered` gives, have no cycle. -/
theorem acyclic_of_order {l : List α} (hnodup : l.Nodup) {step : α → α → Prop}
    (h : ∀ a b, step a b → [a, b].Sublist l) (x : α) : ¬ TransGen step x x := by
  have hlt : ∀ a b, TransGen step a b → l.idxOf a < l.idxOf b := by
    intro a b hpath
    induction hpath with
    | single hab => exact position_lt hnodup (h _ _ hab)
    | tail _ hbc ih => exact ih.trans (position_lt hnodup (h _ _ hbc))
  exact fun hcycle => lt_irrefl _ (hlt x x hcycle)

end

/-! ## Edges under other names -/

section

variable {κ : Type w}

/-- The marked edges under their other names. -/
def State.mapEdges (g : ι → κ) (st : State α ι) : State α κ :=
  ⟨st.gray, st.black, st.marked.map g⟩

variable [DecidableEq α] (g : ι → κ) (source target : κ → α) (edges : List ι)

theorem visit_mapEdges (fuel : Nat) (node : α) (st : State α ι) :
    visit source target (edges.map g) fuel node (st.mapEdges g) =
      (visit (fun e => source (g e)) (fun e => target (g e)) edges fuel node st).mapEdges g := by
  induction fuel generalizing node st with
  | zero => rfl
  | succ fuel ih =>
      have hfollow : ∀ (st : State α ι) (edge : ι),
          follow source target (visit source target (edges.map g) fuel) node (st.mapEdges g)
              (g edge) =
            (follow (fun e => source (g e)) (fun e => target (g e))
              (visit (fun e => source (g e)) (fun e => target (g e)) edges fuel) node st
              edge).mapEdges g := by
        intro st edge
        rw [follow, follow]
        split
        · rfl
        · show (if target (g edge) ∈ st.gray then _ else if target (g edge) ∈ st.black then _
            else _) = _
          split
          · rfl
          · split
            · rfl
            · exact ih _ _
      have hfold : edges.foldl (fun st edge => follow source target
            (visit source target (edges.map g) fuel) node st (g edge))
            (State.mapEdges g { st with gray := node :: st.gray }) =
          (edges.foldl (follow (fun e => source (g e)) (fun e => target (g e))
            (visit (fun e => source (g e)) (fun e => target (g e)) edges fuel) node)
              { st with gray := node :: st.gray }).mapEdges g :=
        List.foldl_hom (State.mapEdges g) hfollow
      have hstart : { st.mapEdges g with gray := node :: (st.mapEdges g).gray } =
          State.mapEdges g { st with gray := node :: st.gray } := rfl
      rw [visit, visit, List.foldl_map, hstart]
      rw [hfold]
      rfl

/-- A search goes the same way whatever its edges are called. -/
theorem search_mapEdges (fuel : Nat) (nodes : List α) :
    search source target (edges.map g) fuel nodes =
      (search (fun e => source (g e)) (fun e => target (g e)) edges fuel nodes).mapEdges g := by
  have hstep : ∀ (st : State α ι) (node : α),
      (if node ∈ (st.mapEdges g).gray ∨ node ∈ (st.mapEdges g).black then st.mapEdges g
        else visit source target (edges.map g) fuel node (st.mapEdges g)) =
      (if node ∈ st.gray ∨ node ∈ st.black then st
        else visit (fun e => source (g e)) (fun e => target (g e)) edges fuel node
          st).mapEdges g := by
    intro st node
    split
    · next h => rw [if_pos (by exact h)]
    · next h =>
        rw [if_neg (by exact h)]
        exact visit_mapEdges g source target edges fuel node st
  have hfold : ∀ st : State α ι,
      nodes.foldl (fun st node => if node ∈ st.gray ∨ node ∈ st.black then st
        else visit source target (edges.map g) fuel node st) (st.mapEdges g) =
      (nodes.foldl (fun st node => if node ∈ st.gray ∨ node ∈ st.black then st
        else visit (fun e => source (g e)) (fun e => target (g e)) edges fuel node
          st) st).mapEdges g := fun _ => List.foldl_hom (State.mapEdges g) hstep
  exact hfold ⟨[], [], []⟩

end

section

variable [DecidableEq α] (source target : ι → α) (edges : List ι)

theorem visit_marked_subset (fuel : Nat) (node : α) {st : State α ι}
    (h : ∀ edge ∈ st.marked, edge ∈ edges) :
    ∀ edge ∈ (visit source target edges fuel node st).marked, edge ∈ edges := by
  induction fuel generalizing node st with
  | zero => exact h
  | succ fuel ih =>
      refine List.foldlRecOn (motive := fun st : State α ι => ∀ edge ∈ st.marked, edge ∈ edges)
        edges _ h fun st hst edge hedge => ?_
      rw [follow]
      split
      · exact hst
      · split
        · exact List.forall_mem_cons.2 ⟨hedge, hst⟩
        · split
          · exact hst
          · exact ih _ hst

/-- Only edges of the graph are marked. -/
theorem marked_subset (fuel : Nat) (nodes : List α) :
    ∀ edge ∈ (search source target edges fuel nodes).marked, edge ∈ edges :=
  List.foldlRecOn (motive := fun st : State α ι => ∀ edge ∈ st.marked, edge ∈ edges) nodes _
    (fun _ h => absurd h List.not_mem_nil) fun st hst node _ => by
      show ∀ edge ∈ (if node ∈ st.gray ∨ node ∈ st.black then st
        else visit source target edges fuel node st).marked, edge ∈ edges
      split
      · exact hst
      · exact visit_marked_subset source target edges fuel node hst

end

end DepthFirst
