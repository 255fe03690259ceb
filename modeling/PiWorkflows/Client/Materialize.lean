import PiWorkflows.Js.Json
import PiWorkflows.Lib.Fallible

/-!
# A list completed from its pages (`client/materialize.ts`)

`completePage` starts from the page of a list that came with the view and asks for
the page around the first item that is missing, until none is. What a request is
answered is a parameter, so the server may answer anything.
-/

namespace PiWorkflows

/-- `ViewerPage`. -/
structure ViewerPage where
  start : Nat
  total : Nat
  items : List Json

/-- The receipt of a `view.page` request. -/
structure RunPage where
  schema : String
  runId : String
  revision : Nat
  kind : String
  cursor : Nat
  start : Int
  total : Nat
  items : List Json

/-- Items at places of a list with holes, and how many holes they filled. -/
def placeItems : List Json → Nat → List (Option Json) → Nat → List (Option Json) × Nat
  | [], _, items, added => (items, added)
  | item :: rest, index, items, added =>
      let added := if items[index]? = some none then added + 1 else added
      placeItems rest (index + 1) (items.set index (some item)) added

def holes (items : List (Option Json)) : Nat :=
  items.countP Option.isNone

theorem holes_set (item : Json) (items : List (Option Json)) (index : Nat) :
    holes (items.set index (some item)) + (if items[index]? = some none then 1 else 0) =
      holes items := by
  induction items generalizing index with
  | nil => rfl
  | cons head rest ih =>
      cases index with
      | zero => cases head <;> simp [holes]
      | succ index =>
          have hrest := ih index
          simp only [holes, List.set_cons_succ, List.countP_cons, List.getElem?_cons_succ] at hrest ⊢
          omega

/-- What is counted as added is what the holes lose. -/
theorem holes_placeItems (page : List Json) : ∀ (index : Nat) (items : List (Option Json))
    (added : Nat), holes (placeItems page index items added).1 +
      (placeItems page index items added).2 = holes items + added := by
  induction page with
  | nil => exact fun _ _ _ => rfl
  | cons item rest ih =>
      intro index items added
      have hset := holes_set item items index
      rw [placeItems, ih]
      split
      · next hhole =>
          rw [if_pos hhole] at hset
          omega
      · next hfull =>
          rw [if_neg hfull] at hset
          omega

/-- The loop of `completePage`. -/
def completeFrom (request : Nat → Except String RunPage) (runId : String) (revision : Nat)
    (kind : String) (total : Nat) (items : List (Option Json)) : Except String (List Json) :=
  match items.findIdx? Option.isNone with
  | none => .ok (items.filterMap id)
  | some cursor =>
      match request cursor with
      | .error message => .error message
      | .ok page =>
          if page.schema ≠ "pi-workflows.run-page.v1" ∨ page.runId ≠ runId ∨
              page.revision ≠ revision ∨ page.kind ≠ kind ∨ page.cursor ≠ cursor ∨
              page.total ≠ total then
            .error s!"Workflow {kind} page changed while loading"
          else if page.start < 0 ∨ total < page.start + page.items.length then
            .error s!"Workflow {kind} page is outside its history"
          else
            if (placeItems page.items page.start.toNat items 0).2 = 0 then
              .error s!"Workflow {kind} page made no progress"
            else
              completeFrom request runId revision kind total
                (placeItems page.items page.start.toNat items 0).1
  termination_by holes items
  decreasing_by
    have hholes := holes_placeItems page.items page.start.toNat items 0
    omega

def completePage (request : Nat → Except String RunPage) (runId : String) (revision : Nat)
    (kind : String) (initial : ViewerPage) : Except String (List Json) :=
  if initial.total < initial.start + initial.items.length then
    .error s!"Workflow {kind} page is invalid"
  else
    completeFrom request runId revision kind initial.total
      (placeItems initial.items initial.start (List.replicate initial.total none) 0).1

end PiWorkflows
