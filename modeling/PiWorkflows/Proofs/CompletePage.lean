import Mathlib.Data.List.Sort
import PiWorkflows.Client.Materialize
import PiWorkflows.Server.Pages

/-!
# A list is completed from its pages

The rows that a page holds stand side by side and one of them was asked for
(`Spans`), however the limits stop it on one side or the other. So a request for the
first missing item brings that item, and the client gets all of them in finitely
many rounds (`completePage_viewPage`).
-/

namespace PiWorkflows

open Fallible

variable {α : Type} {values : List α} {project : α → Json}

/-! ## A page that grows -/

def itemBytes (item : Json) : Nat :=
  byteLength (canonicalJson item)

/-- The rows that have been taken are those from `lo` up to `hi`. -/
structure Spans (values : List α) (project : α → Json) (cursor lo hi : Nat)
    (page : GrowingPage) : Prop where
  left : page.left = (lo : Int) - 1
  right : page.right = (hi : Int)
  from_le : lo ≤ cursor
  lt_to : cursor < hi
  there : hi ≤ values.length
  keys : (page.indexed.map Prod.fst).Perm (List.range' lo (hi - lo))
  shown : ∀ e ∈ page.indexed, (values[e.1]?).map project = some e.2
  bytes : page.pageBytes + 1 = (page.indexed.map fun e => itemBytes e.2 + 1).sum
  bounded : page.indexed.length = 1 ∨ page.pageBytes ≤ viewPageBytes
  few : page.indexed.length ≤ viewPageItems

namespace Spans

variable {cursor lo hi : Nat} {page : GrowingPage}

theorem block_turn (h : Spans values project cursor lo hi page) :
    Spans values project cursor lo hi page.block.turn := by
  unfold GrowingPage.block
  split
  · exact ⟨h.left, h.right, h.from_le, h.lt_to, h.there, h.keys, h.shown, h.bytes, h.bounded, h.few⟩
  · exact ⟨h.left, h.right, h.from_le, h.lt_to, h.there, h.keys, h.shown, h.bytes, h.bounded, h.few⟩

/-- What a row adds that is next to the others. -/
theorem taken (h : Spans values project cursor lo hi page) {index lo' hi' : Nat} {value : α}
    (hvalue : values[index]? = some value) (hgrowing : page.growing = true)
    (hroom : page.pageBytes + (itemBytes (project value) + 1) ≤ viewPageBytes)
    {page' : GrowingPage} (hindexed : page'.indexed = page.indexed ++ [(index, project value)])
    (hbytes : page'.pageBytes = page.pageBytes + (itemBytes (project value) + 1))
    (hleft : page'.left = (lo' : Int) - 1) (hright : page'.right = (hi' : Int)) (hlo : lo' ≤ lo)
    (hhi : hi ≤ hi') (hthere : hi' ≤ values.length)
    (hkeys : (index :: List.range' lo (hi - lo)).Perm (List.range' lo' (hi' - lo'))) :
    Spans values project cursor lo' hi' page' where
  left := hleft
  right := hright
  from_le := hlo.trans h.from_le
  lt_to := h.lt_to.trans_le hhi
  there := hthere
  keys := by
    rw [hindexed, List.map_append]
    exact (List.perm_append_comm.trans (h.keys.cons index)).trans hkeys
  shown := by
    intro e he
    rw [hindexed, List.mem_append, List.mem_singleton] at he
    rcases he with he | rfl
    · exact h.shown e he
    · exact congrArg (Option.map project) hvalue
  bytes := by
    rw [hindexed, hbytes, List.map_append, List.sum_append, ← h.bytes, List.map_singleton,
      List.sum_singleton]
    dsimp only
    omega
  bounded := .inr (hbytes ▸ hroom)
  few := by
    rw [GrowingPage.growing, Bool.and_eq_true, decide_eq_true_eq] at hgrowing
    rw [hindexed, List.length_append, List.length_singleton]
    exact hgrowing.1

/-- A row at one of the two ends is taken. -/
theorem take_turn (h : Spans values project cursor lo hi page) {index : Nat} {value : α}
    (hnext : page.next? values = some (index, value)) (hgrowing : page.growing = true)
    (hroom : page.pageBytes + (itemBytes (project value) + 1) ≤ viewPageBytes) :
    ∃ lo' hi', Spans values project cursor lo' hi'
      (page.take index (project value) (itemBytes (project value) + 1)).turn := by
  have hmem := h.from_le.trans_lt h.lt_to
  unfold GrowingPage.next? at hnext
  unfold GrowingPage.take
  by_cases hside : page.preferLeft = true
  · simp only [hside, if_true] at hnext ⊢
    split at hnext
    · next hpos =>
        obtain ⟨value', hvalue, heq⟩ := Option.map_eq_some_iff.1 hnext
        obtain ⟨rfl, rfl⟩ := Prod.mk.inj heq
        have hleft := h.left
        have hindex : page.left.toNat + 1 = lo := by omega
        refine ⟨page.left.toNat, hi, h.taken hvalue hgrowing hroom rfl rfl ?_ h.right
          (by omega) le_rfl h.there ?_⟩
        · show page.left - 1 = (page.left.toNat : Int) - 1
          omega
        · have hcount : hi - page.left.toNat = hi - lo + 1 := by omega
          rw [hcount, List.range'_succ, hindex]
    · cases hnext
  · simp only [hside, Bool.false_eq_true, if_false] at hnext ⊢
    split at hnext
    · obtain ⟨value', hvalue, heq⟩ := Option.map_eq_some_iff.1 hnext
      obtain ⟨rfl, rfl⟩ := Prod.mk.inj heq
      have hright := h.right
      have hindex : page.right.toNat = hi := by omega
      rw [hindex] at hvalue
      have hlt := (List.getElem?_eq_some_iff.1 hvalue).1
      refine ⟨lo, hi + 1, h.taken hvalue hgrowing hroom (by rw [hindex]; rfl) rfl h.left ?_ le_rfl
        (Nat.le_succ hi) hlt ?_⟩
      · show page.right + 1 = ((hi + 1 : Nat) : Int)
        omega
      · have hcount : hi + 1 - lo = hi - lo + 1 := by omega
        have hlast : lo + 1 * (hi - lo) = hi := by omega
        rw [hcount, List.range'_concat, hlast]
        exact (List.perm_append_singleton hi _).symm
    · cases hnext

theorem round (h : Spans values project cursor lo hi page) (hgrowing : page.growing = true) :
    ∃ lo' hi', Spans values project cursor lo' hi' (page.round values project) := by
  unfold GrowingPage.round
  cases hnext : page.next? values with
  | none => exact ⟨lo, hi, h.block_turn⟩
  | some next =>
      dsimp only
      split
      · exact ⟨lo, hi, h.block_turn⟩
      · next hroom => exact h.take_turn hnext hgrowing (not_lt.1 hroom)

theorem grow (page : GrowingPage) : ∀ {lo hi : Nat}, Spans values project cursor lo hi page →
    ∃ lo' hi', Spans values project cursor lo' hi' (page.grow values project) := by
  induction page using GrowingPage.grow.induct values project with
  | case1 page hgrowing ih =>
      intro lo hi h
      obtain ⟨lo', hi', hround⟩ := h.round hgrowing
      rw [GrowingPage.grow, if_pos hgrowing]
      exact ih hround
  | case2 page hdone =>
      intro lo hi h
      rw [GrowingPage.grow, if_neg hdone]
      exact ⟨lo, hi, h⟩

end Spans

/-! ## A page -/

/-- What a page is that is cut around a position: the rows side by side that contain
the position, at most so many, and within the bytes unless it is one row alone. -/
structure PageAround (all : List Json) (cursor : Nat) (page : ViewPage) : Prop where
  total : page.total = all.length
  items : page.items = (all.drop page.start).take page.items.length
  from_le : page.start ≤ cursor
  lt_to : cursor < page.start + page.items.length
  few : page.items.length ≤ viewPageItems
  bounded : page.items.length = 1 ∨
    byteLength (joinText ',' (page.items.map canonicalJson)) ≤ viewPageBytes

theorem byteLength_joinText (parts : List String) (h : parts ≠ []) :
    byteLength (joinText ',' parts) + 1 = (parts.map fun part => byteLength part + 1).sum := by
  unfold joinText byteLength
  rw [String.toList_ofList]
  induction parts with
  | nil => exact absurd rfl h
  | cons part rest ih =>
      obtain _ | ⟨next, rest⟩ := rest
      · simp [List.intercalate]
      · have hrest := ih (List.cons_ne_nil _ _)
        have hcomma : ([','].map Char.utf8Size).sum = 1 := by decide
        rw [List.map_cons, List.map_cons, List.intercalate_cons_cons, List.map_append,
          List.map_append, List.sum_append, List.sum_append, hcomma, List.map_cons, List.sum_cons,
          ← hrest, List.map_cons]
        omega

/-- The page that has grown, sorted by place. -/
theorem Spans.sorted {cursor lo hi : Nat} {page : GrowingPage}
    (h : Spans values project cursor lo hi page) :
    let ordered := page.indexed.mergeSort fun left right => decide (left.1 ≤ right.1)
    ordered.map Prod.fst = List.range' lo (hi - lo) ∧
      ordered.map Prod.snd = ((values.map project).drop lo).take (hi - lo) := by
  intro ordered
  have hperm : ordered.Perm page.indexed := List.mergeSort_perm _ _
  have hle : ordered.Pairwise fun a b => a.1 ≤ b.1 := by
    have hsorted : ordered.Pairwise fun a b => decide (a.1 ≤ b.1) = true := by
      refine List.pairwise_mergeSort (fun a b c hab hbc => ?_) (fun a b => ?_) page.indexed
      · rw [decide_eq_true_eq] at *
        exact hab.trans hbc
      · simp [Nat.le_total]
    exact hsorted.imp of_decide_eq_true
  have hkeys : ordered.map Prod.fst = List.range' lo (hi - lo) := by
    refine ((hperm.map _).trans h.keys).eq_of_pairwise (fun a b _ _ => Nat.le_antisymm)
      (List.pairwise_map.2 hle) ?_
    exact (List.pairwise_lt_range' ..).imp Nat.le_of_lt
  refine ⟨hkeys, ?_⟩
  have hlength : ordered.length = hi - lo := by
    rw [← List.length_map (f := Prod.fst), hkeys, List.length_range']
  refine List.ext_getElem? fun i => ?_
  rw [List.getElem?_map, List.getElem?_take, List.getElem?_drop, List.getElem?_map]
  by_cases hi' : i < hi - lo
  · obtain ⟨e, hget⟩ : ∃ e, ordered[i]? = some e :=
      ⟨_, List.getElem?_eq_getElem (hlength.symm ▸ hi')⟩
    have hkey : e.1 = lo + i := by
      have hplace := congrArg (·[i]?) hkeys
      simpa [hget, hi'] using hplace
    rw [if_pos hi', hget, Option.map_some, ← hkey]
    exact (h.shown e (hperm.mem_iff.1 (List.mem_of_getElem? hget))).symm
  · rw [if_neg hi', List.getElem?_eq_none (hlength.le.trans (not_lt.1 hi'))]
    rfl

theorem Spans.start {values : List α} (project : α → Json) {cursor : Nat} {value : α}
    (hvalue : values[cursor]? = some value) :
    Spans values project cursor cursor (cursor + 1)
      { indexed := [(cursor, project value)]
        pageBytes := itemBytes (project value)
        left := (cursor : Int) - 1
        right := (cursor : Int) + 1 } where
  left := rfl
  right := rfl
  from_le := le_rfl
  lt_to := Nat.lt_succ_self _
  there := (List.getElem?_eq_some_iff.1 hvalue).1
  keys := by simp
  shown := by simp [hvalue]
  bytes := by simp
  bounded := .inl rfl
  few := Nat.succ_le_succ (Nat.zero_le _)

theorem sum_itemBytes (rows : List (Nat × Json)) :
    (((rows.map Prod.snd).map canonicalJson).map fun part => byteLength part + 1).sum =
      (rows.map fun e => itemBytes e.2 + 1).sum := by
  rw [List.map_map, List.map_map]
  rfl

/-- The page that is made of the rows taken. -/
theorem Spans.around {cursor lo hi : Nat} {page : GrowingPage}
    (h : Spans values project cursor lo hi page) :
    let ordered := page.indexed.mergeSort fun left right => decide (left.1 ≤ right.1)
    PageAround (values.map project) cursor
      { start := (ordered.head?.map Prod.fst).getD cursor
        total := values.length
        items := ordered.map Prod.snd } := by
  intro ordered
  have hkeys : ordered.map Prod.fst = List.range' lo (hi - lo) := h.sorted.1
  have hitems : ordered.map Prod.snd = ((values.map project).drop lo).take (hi - lo) := h.sorted.2
  have hmem := h.from_le.trans_lt h.lt_to
  have hperm : ordered.Perm page.indexed := List.mergeSort_perm _ _
  clear_value ordered
  have hlength : ordered.length = hi - lo := by
    rw [← List.length_map (f := Prod.fst), hkeys, List.length_range']
  have hstart : (ordered.head?.map Prod.fst).getD cursor = lo := by
    rw [← List.head?_map, hkeys, List.head?_range', if_neg (by omega), Option.getD_some]
  rw [hstart]
  refine ⟨(List.length_map _).symm, ?_, h.from_le, ?_, ?_, ?_⟩
  · show ordered.map Prod.snd = _
    rw [List.length_map, hlength]
    exact hitems
  · show cursor < lo + (ordered.map Prod.snd).length
    have hto := h.lt_to
    rw [List.length_map, hlength]
    omega
  · show (ordered.map Prod.snd).length ≤ _
    rw [List.length_map, hperm.length_eq]
    exact h.few
  · show (ordered.map Prod.snd).length = 1 ∨
      byteLength (joinText ',' ((ordered.map Prod.snd).map canonicalJson)) ≤ _
    rw [List.length_map, hperm.length_eq]
    have hsome : (ordered.map Prod.snd).map canonicalJson ≠ [] := by
      intro hnil
      rw [List.map_eq_nil_iff, List.map_eq_nil_iff] at hnil
      rw [hnil, List.length_nil] at hlength
      omega
    have hjoin := byteLength_joinText _ hsome
    have hsum := (sum_itemBytes ordered).trans ((hperm.map _).sum_nat.trans h.bytes.symm)
    rw [Nat.add_right_cancel (hjoin.trans hsum)]
    exact h.bounded

theorem clampCursor_of_lt {cursor total : Nat} (h : cursor < total) :
    clampCursor cursor total = cursor := by
  unfold clampCursor
  rw [if_neg (by omega)]
  omega

theorem byteBoundedPage_around (project : α → Json) {cursor : Nat}
    (hcursor : cursor < values.length) :
    PageAround (values.map project) cursor (byteBoundedPage values (some cursor) project) := by
  have hvalue : values[cursor]? = some values[cursor] := List.getElem?_eq_getElem hcursor
  obtain ⟨lo, hi, h⟩ := Spans.grow _ (Spans.start project hvalue)
  unfold byteBoundedPage
  dsimp only
  rw [Option.getD_some, clampCursor_of_lt hcursor, hvalue]
  exact h.around

theorem viewPage_around (values : List α) (hvalues : values ≠ []) (cursor : Option Nat)
    (project : α → Json) :
    PageAround (values.map project)
      (clampCursor (cursor.getD (values.length - 1)) values.length)
      (viewPage values cursor project) := by
  have hpos : 0 < values.length := List.length_pos_iff.2 hvalues
  unfold viewPage viewRange
  dsimp only
  have hclamp : clampCursor (cursor.getD (values.length - 1)) values.length < values.length := by
    unfold clampCursor
    rw [if_neg (by omega)]
    omega
  have hwindow : workflowPageStart values.length cursor ≤
        clampCursor (cursor.getD (values.length - 1)) values.length ∧
      clampCursor (cursor.getD (values.length - 1)) values.length <
        workflowPageStart values.length cursor + viewPageItems := by
    unfold workflowPageStart viewPageItems clampCursor at *
    cases cursor with
    | none => 
        simp only [Option.getD_none] at *
        split_ifs at * <;> omega
    | some cursor => 
        simp only [Option.getD_some] at *
        split_ifs at * <;> omega
  unfold byteBoundedCandidatePage
  dsimp only
  generalize clampCursor (cursor.getD (values.length - 1)) values.length = selected at *
  generalize workflowPageStart values.length cursor = start at *
  have hlength : ((values.drop start).take (min viewPageItems (values.length - start))).length =
      min viewPageItems (values.length - start) := by
    rw [List.length_take, List.length_drop]
    omega
  have hselected : selected - start < min viewPageItems (values.length - start) := by omega
  have hlocal : min (selected - start) (((values.drop start).take
      (min viewPageItems (values.length - start))).length - 1) = selected - start := by omega
  have hsome : (values.drop start).take (min viewPageItems (values.length - start)) ≠ [] := by
    intro hnil
    rw [hnil, List.length_nil] at hlength
    omega
  rw [if_neg hsome, hlocal]
  have haround := byteBoundedPage_around project (hlength.symm ▸ hselected)
  obtain ⟨-, hitems, hfrom, hto, hfew, hbounded⟩ := haround
  generalize byteBoundedPage _ (some (selected - start)) project = page at *
  refine ⟨(List.length_map _).symm, ?_, ?_, ?_, hfew, hbounded⟩
  · have hfits : page.start + page.items.length ≤ min viewPageItems (values.length - start) := by
      have hcount := congrArg List.length hitems
      rw [List.length_take, List.length_drop, List.length_map, hlength] at hcount
      omega
    refine hitems.trans ?_
    rw [List.map_take, List.map_drop, List.drop_take, List.take_take, List.drop_drop]
    dsimp only
    congr 1
    omega
  · show start + page.start ≤ selected
    omega
  · show selected < start + page.start + page.items.length
    omega

/-! ## All pages -/

/-- What is there is an item of the list, at its own place. -/
structure PartOf (all : List Json) (items : List (Option Json)) : Prop where
  length : items.length = all.length
  placed : ∀ (i : Nat) (item : Json), items[i]? = some (some item) → all[i]? = some item

theorem PartOf.placeItems {all : List Json} (page : List Json) : ∀ {index : Nat}
    {items : List (Option Json)} (added : Nat), PartOf all items →
    (∀ (i : Nat) (item : Json), page[i]? = some item → all[index + i]? = some item) →
    PartOf all (placeItems page index items added).1 := by
  induction page with
  | nil => exact fun _ h _ => h
  | cons item rest ih =>
      intro index items added h hpage
      rw [PiWorkflows.placeItems]
      refine ih _ ⟨(List.length_set ..).trans h.length, fun i other hother => ?_⟩ fun i other hother => ?_
      · rw [List.getElem?_set] at hother
        split at hother
        · next heq =>
            have hitem := hpage 0 item rfl
            split at hother
            · obtain rfl := Option.some.inj (Option.some.inj hother)
              rwa [Nat.add_zero, heq] at hitem
            · cases hother
        · exact h.placed i other hother
      · have hlater := hpage (i + 1) other hother
        rwa [Nat.add_left_comm, Nat.add_comm] at hlater

theorem le_added_placeItems (page : List Json) : ∀ (index : Nat) (items : List (Option Json))
    (added : Nat), added ≤ (placeItems page index items added).2 := by
  induction page with
  | nil => exact fun _ _ _ => le_rfl
  | cons item rest ih =>
      intro index items added
      rw [placeItems]
      refine le_trans ?_ (ih _ _ _)
      split
      · exact Nat.le_succ added
      · exact le_rfl

/-- A hole in the range of the page is filled. -/
theorem added_placeItems (page : List Json) : ∀ {index cursor : Nat} {items : List (Option Json)}
    (added : Nat), items[cursor]? = some none → index ≤ cursor → cursor < index + page.length →
    added < (placeItems page index items added).2 := by
  induction page with
  | nil =>
      intro index cursor items added _ hfrom hto
      exact absurd hto hfrom.not_gt
  | cons item rest ih =>
      intro index cursor items added hhole hfrom hto
      rw [List.length_cons] at hto
      rw [placeItems]
      rcases hfrom.eq_or_lt with rfl | hlt
      · rw [if_pos hhole]
        exact le_added_placeItems rest _ _ (added + 1)
      · have hstill : (items.set index (some item))[cursor]? = some none := by
          rw [List.getElem?_set_ne (Nat.ne_of_lt hlt)]
          exact hhole
        refine lt_of_le_of_lt ?_ (ih _ hstill hlt (by omega))
        split
        · exact Nat.le_succ added
        · exact le_rfl

/-- What the server answers to a request for a page. -/
def viewPageReceipt (runId : String) (revision : Nat) (kind : String) (values : List α)
    (project : α → Json) (cursor : Nat) : RunPage :=
  let page := viewPage values (some cursor) project
  { schema := "pi-workflows.run-page.v1", runId, revision, kind, cursor
    start := page.start, total := page.total, items := page.items }

/-- A round that is answered with a page of the list, and fills a hole. -/
theorem completeFrom_page {request : Nat → Except String RunPage} {runId kind : String}
    {revision total cursor : Nat} {items : List (Option Json)} {page : RunPage}
    (hcursor : items.findIdx? Option.isNone = some cursor) (hpage : request cursor = .ok page)
    (hsame : page.schema = "pi-workflows.run-page.v1" ∧ page.runId = runId ∧
      page.revision = revision ∧ page.kind = kind ∧ page.cursor = cursor ∧ page.total = total)
    (hstart : 0 ≤ page.start) (hfits : page.start + page.items.length ≤ total)
    (hadded : (placeItems page.items page.start.toNat items 0).2 ≠ 0) :
    completeFrom request runId revision kind total items =
      completeFrom request runId revision kind total
        (placeItems page.items page.start.toNat items 0).1 := by
  obtain ⟨hschema, hrun, hrevision, hkind, hasked, htotal⟩ := hsame
  have hchanged : ¬(page.schema ≠ "pi-workflows.run-page.v1" ∨ page.runId ≠ runId ∨
      page.revision ≠ revision ∨ page.kind ≠ kind ∨ page.cursor ≠ cursor ∨ page.total ≠ total) := by
    simp [hschema, hrun, hrevision, hkind, hasked, htotal]
  have houtside : ¬(page.start < 0 ∨ total < page.start + page.items.length) := by omega
  rw [completeFrom.eq_def request runId revision kind total items, hcursor]
  dsimp only
  rw [hpage]
  dsimp only
  rw [if_neg hchanged, if_neg houtside, if_neg hadded]

theorem completeFrom_viewPage (runId : String) (revision : Nat) (kind : String) (values : List α)
    (project : α → Json) (items : List (Option Json)) (h : PartOf (values.map project) items) :
    completeFrom (fun cursor => .ok (viewPageReceipt runId revision kind values project cursor))
      runId revision kind values.length items = .ok (values.map project) := by
  cases hcursor : items.findIdx? Option.isNone with
  | none =>
      have hfull : items = (values.map project).map some := by
        refine List.ext_getElem? fun i => ?_
        cases hget : items[i]? with
        | none =>
            rw [List.getElem?_eq_none_iff] at hget
            rw [List.getElem?_eq_none (by rwa [List.length_map, ← h.length])]
        | some found =>
            have hsome := List.findIdx?_eq_none_iff.1 hcursor found (List.mem_of_getElem? hget)
            cases found with
            | none => cases hsome
            | some item => rw [List.getElem?_map, h.placed i item hget, Option.map_some]
      rw [completeFrom, hcursor]
      dsimp only
      rw [hfull, List.filterMap_map]
      exact congrArg Except.ok List.filterMap_some
  | some cursor =>
      obtain ⟨hlt, hnone, -⟩ := List.findIdx?_eq_some_iff_getElem.1 hcursor
      have hhole : items[cursor]? = some none := by
        rw [List.getElem?_eq_getElem hlt, Option.isNone_iff_eq_none.1 hnone]
      have hcount : cursor < values.length := by
        rwa [h.length, List.length_map] at hlt
      have hpage := viewPage_around values (List.ne_nil_of_length_pos (by omega)) (some cursor)
        project
      rw [Option.getD_some, clampCursor_of_lt hcount] at hpage
      have hfits : (viewPage values (some cursor) project).start +
          (viewPage values (some cursor) project).items.length ≤ values.length := by
        have hlength := congrArg List.length hpage.items
        have hfrom := hpage.from_le
        have hto := hpage.lt_to
        rw [List.length_take, List.length_drop, List.length_map] at hlength
        omega
      have hplaced : ∀ i item, (viewPage values (some cursor) project).items[i]? = some item →
          (values.map project)[(viewPage values (some cursor) project).start + i]? =
            some item := by
        intro i item hitem
        rw [hpage.items, List.getElem?_take] at hitem
        split at hitem
        · rwa [List.getElem?_drop] at hitem
        · cases hitem
      have hadded := added_placeItems _ 0 hhole hpage.from_le hpage.lt_to
      have htotal := hpage.total
      rw [List.length_map] at htotal
      have hholes := holes_placeItems (viewPage values (some cursor) project).items
        (viewPage values (some cursor) project).start items 0
      have hnext := completeFrom_viewPage runId revision kind values project _
        (h.placeItems (viewPage values (some cursor) project).items 0 hplaced)
      have hanswer : (fun cursor => (Except.ok
          (viewPageReceipt runId revision kind values project cursor) : Except String RunPage))
            cursor = .ok (viewPageReceipt runId revision kind values project cursor) := rfl
      have hfits' : (viewPageReceipt runId revision kind values project cursor).start +
          (viewPageReceipt runId revision kind values project cursor).items.length ≤
            (values.length : Int) := by
        show ((viewPage values (some cursor) project).start : Int) +
          (viewPage values (some cursor) project).items.length ≤ values.length
        omega
      exact (completeFrom_page hcursor hanswer ⟨rfl, rfl, rfl, rfl, rfl, htotal⟩
        (Int.natCast_nonneg _) hfits' hadded.ne').trans hnext
  termination_by holes items

/-- From any page of a list the client comes to the whole list, and every page that it
is answered on the way, or that anyone is, is cut around the position asked for. -/
theorem completePage_viewPage (runId : String) (revision : Nat) (kind : String) (values : List α)
    (project : α → Json) (start n : Nat) (hrange : start + n ≤ values.length) :
    completePage (fun cursor => .ok (viewPageReceipt runId revision kind values project cursor))
        runId revision kind
        { start, total := values.length, items := ((values.map project).drop start).take n } =
      .ok (values.map project) ∧
    ∀ cursor : Option Nat, values ≠ [] →
      PageAround (values.map project)
        (clampCursor (cursor.getD (values.length - 1)) values.length)
        (viewPage values cursor project) := by
  refine ⟨?_, fun cursor hvalues => viewPage_around values hvalues cursor project⟩
  have hlength : (((values.map project).drop start).take n).length = n := by
    rw [List.length_take, List.length_drop, List.length_map]
    omega
  unfold completePage
  dsimp only
  rw [hlength, if_neg (not_lt.2 hrange)]
  have hempty : PartOf (values.map project) (List.replicate values.length none) := by
    refine ⟨by rw [List.length_replicate, List.length_map], fun i item hitem => ?_⟩
    rw [List.getElem?_replicate] at hitem
    split at hitem <;> cases hitem
  refine completeFrom_viewPage runId revision kind values project _
    (hempty.placeItems _ 0 fun i item hitem => ?_)
  rw [List.getElem?_take] at hitem
  split at hitem
  · rwa [List.getElem?_drop] at hitem
  · cases hitem

theorem completePage_three :
    completePage (fun cursor => .ok (viewPageReceipt "r" 7 "steps" [1, 2, 3]
        (fun n => Json.num (.ofNat n)) cursor)) "r" 7 "steps"
        { start := 1, total := 3, items := [.num (.ofNat 2)] } =
      .ok [.num (.ofNat 1), .num (.ofNat 2), .num (.ofNat 3)] ∧
    ∀ cursor : Option Nat, [1, 2, 3] ≠ [] →
      PageAround [.num (.ofNat 1), .num (.ofNat 2), .num (.ofNat 3)]
        (clampCursor (cursor.getD 2) 3)
        (viewPage [1, 2, 3] cursor fun n => Json.num (.ofNat n)) :=
  completePage_viewPage "r" 7 "steps" [1, 2, 3] (fun n => Json.num (.ofNat n)) 1 1 (by decide)

end PiWorkflows
