import Mathlib.Tactic.SplitIfs
import PiWorkflows.Js.Json
import PiWorkflows.Js.Text

/-!
# Pages of a run view (`server/view.ts`)

A page is cut in two steps. The position asked for fixes a window of the list, and
only the rows of the window are loaded; of these the page takes as many as the
limits allow, from the position asked for outwards.

Rows are of any type, and how a row is shown is a parameter.
-/

namespace PiWorkflows

/-- `VIEW_PAGE_ITEMS`. -/
def viewPageItems : Nat := 256

/-- `VIEW_PAGE_BYTES`. -/
def viewPageBytes : Nat := 64 * 1024

structure ViewPage where
  start : Nat
  total : Nat
  items : List Json
  deriving DecidableEq

def clampCursor (cursor total : Nat) : Nat :=
  if total = 0 then 0 else min cursor (total - 1)

def workflowPageStart (total : Nat) (cursor : Option Nat) : Nat :=
  if total ≤ 256 then 0
  else
    match cursor with
    | none => total - 256
    | some cursor => min (clampCursor cursor total - 128) (total - 256)

/-- `viewRange`: a start and a limit. -/
def viewRange (total : Nat) (cursor : Option Nat) : Nat × Nat :=
  let start := workflowPageStart total cursor
  (start, min viewPageItems (total - start))

/-! ## Growing a page -/

/-- The variables of the loop of `byteBoundedPage`. -/
structure GrowingPage where
  indexed : List (Nat × Json)
  pageBytes : Nat
  left : Int
  right : Int
  leftBlocked : Bool := false
  rightBlocked : Bool := false
  preferLeft : Bool := true

namespace GrowingPage

def block (page : GrowingPage) : GrowingPage :=
  if page.preferLeft then { page with leftBlocked := true } else { page with rightBlocked := true }

def take (page : GrowingPage) (index : Nat) (item : Json) (itemBytes : Nat) : GrowingPage :=
  let page :=
    { page with
      indexed := page.indexed ++ [(index, item)]
      pageBytes := page.pageBytes + itemBytes }
  if page.preferLeft then { page with left := page.left - 1 }
  else { page with right := page.right + 1 }

variable {α : Type} (values : List α) (project : α → Json)

/-- The row on the side whose turn it is. -/
def next? (page : GrowingPage) : Option (Nat × α) :=
  let index := if page.preferLeft then page.left else page.right
  if 0 ≤ index then (values[index.toNat]?).map fun value => (index.toNat, value) else none

/-- The turn passes to the other side. -/
def turn (page : GrowingPage) : GrowingPage :=
  { page with preferLeft := !page.preferLeft }

/-- One round of the loop. -/
def round (page : GrowingPage) : GrowingPage :=
  match page.next? values with
  | none => page.block.turn
  | some (index, value) =>
      let item := project value
      let itemBytes := byteLength (canonicalJson item) + 1
      if viewPageBytes < page.pageBytes + itemBytes then page.block.turn
      else (page.take index item itemBytes).turn

/-- The condition of the loop. -/
def growing (page : GrowingPage) : Bool :=
  page.indexed.length < viewPageItems && (!page.leftBlocked || !page.rightBlocked)

/-- The side whose turn it is has no room. -/
def waiting (page : GrowingPage) : Nat :=
  if page.preferLeft then page.leftBlocked.toNat else page.rightBlocked.toNat

def openSides (page : GrowingPage) : Nat :=
  (!page.leftBlocked).toNat + (!page.rightBlocked).toNat

theorem take_decreases {page : GrowingPage} (h : page.growing = true) (index : Nat) (item : Json)
    (itemBytes : Nat) :
    viewPageItems - (page.take index item itemBytes).turn.indexed.length <
      viewPageItems - page.indexed.length := by
  have hlength : (page.take index item itemBytes).turn.indexed.length =
      page.indexed.length + 1 := by
    unfold take
    dsimp only
    split <;> exact List.length_append
  rw [growing, Bool.and_eq_true, decide_eq_true_eq] at h
  omega

/-- A side is closed, or it was and the turn passes to one that is not. -/
theorem block_decreases {page : GrowingPage} (h : page.growing = true) :
    page.block.turn.indexed = page.indexed ∧
      Prod.Lex (· < ·) (· < ·) (page.block.turn.openSides, page.block.turn.waiting)
        (page.openSides, page.waiting) := by
  obtain ⟨indexed, pageBytes, left, right, leftBlocked, rightBlocked, preferLeft⟩ := page
  rw [growing, Bool.and_eq_true] at h
  obtain ⟨-, hopen⟩ := h
  refine ⟨by cases preferLeft <;> rfl, ?_⟩
  rw [Prod.lex_def]
  cases preferLeft <;> cases leftBlocked <;> cases rightBlocked <;>
    simp_all [block, turn, openSides, waiting]

/-- A round takes a row, or it closes a side, or it leaves a closed one for the other. -/
theorem round_decreases {page : GrowingPage} (h : page.growing = true) :
    Prod.Lex (· < ·) (Prod.Lex (· < ·) (· < ·))
      (viewPageItems - (page.round values project).indexed.length,
        (page.round values project).openSides, (page.round values project).waiting)
      (viewPageItems - page.indexed.length, page.openSides, page.waiting) := by
  have hblock : Prod.Lex (· < ·) (Prod.Lex (· < ·) (· < ·))
      (viewPageItems - page.block.turn.indexed.length,
        page.block.turn.openSides, page.block.turn.waiting)
      (viewPageItems - page.indexed.length, page.openSides, page.waiting) := by
    obtain ⟨hindexed, hsides⟩ := block_decreases h
    rw [hindexed]
    exact Prod.Lex.right _ hsides
  unfold round
  cases page.next? values with
  | none => exact hblock
  | some next =>
      dsimp only
      split
      · exact hblock
      · exact Prod.Lex.left _ _ (take_decreases h _ _ _)

def grow (page : GrowingPage) : GrowingPage :=
  if page.growing = true then grow (page.round values project) else page
  termination_by (viewPageItems - page.indexed.length, page.openSides, page.waiting)
  decreasing_by exact round_decreases values project ‹_›

end GrowingPage

variable {α : Type}

def byteBoundedPage (values : List α) (requestedCursor : Option Nat) (project : α → Json) :
    ViewPage :=
  let total := values.length
  let cursor := clampCursor (requestedCursor.getD (total - 1)) total
  match values[cursor]? with
  | none => { start := 0, total := 0, items := [] }
  | some value =>
      let selected := project value
      let page := GrowingPage.grow values project
        { indexed := [(cursor, selected)]
          pageBytes := byteLength (canonicalJson selected)
          left := cursor - 1
          right := cursor + 1 }
      let ordered := page.indexed.mergeSort fun left right => decide (left.1 ≤ right.1)
      { start := (ordered.head?.map Prod.fst).getD cursor
        total
        items := ordered.map Prod.snd }

def byteBoundedCandidatePage (values : List α) (candidateStart total : Nat)
    (requestedCursor : Option Nat) (project : α → Json) : ViewPage :=
  if values = [] then { start := candidateStart, total, items := [] }
  else
    let globalCursor := clampCursor (requestedCursor.getD (total - 1)) total
    let localCursor := min (globalCursor - candidateStart) (values.length - 1)
    let page := byteBoundedPage values (some localCursor) project
    { start := candidateStart + page.start, total, items := page.items }

/-- The page of a list at a position, as `readRun` makes it for each kind: the rows of
the window are what is loaded. -/
def viewPage (values : List α) (cursor : Option Nat) (project : α → Json) : ViewPage :=
  let range := viewRange values.length cursor
  byteBoundedCandidatePage ((values.drop range.1).take range.2) range.1 values.length cursor project

end PiWorkflows
