import PiWorkflows.Js.Member
import PiWorkflows.Js.Text

/-!
# Routing over the workflow graph (`workflows/graph.ts`)

A node has at most one outgoing edge: a plain one, or a switch that reads a
scalar out of the node's output or result and looks the target up by its text.
The lookup `cases[String(value)]` also answers with inherited members of the
record, so a resolved target is a declared node id or such a member.
-/

namespace PiWorkflows

/-- `WorkflowNodeOutcome`. -/
inductive NodeOutcome where
  | ok
  | timed_out
  | failed
  | cancelled
  deriving DecidableEq, Repr

/-- The text of an outcome in records and payloads. -/
def NodeOutcome.text : NodeOutcome → String
  | .ok => "ok"
  | .timed_out => "timed_out"
  | .failed => "failed"
  | .cancelled => "cancelled"

/-- `WorkflowEdge`. -/
inductive WorkflowEdge where
  | plain (source : String) (target : String)
  | switch (source : String) (on : String) (cases : List (String × String))
  deriving DecidableEq

/-- The `from` field of an edge. -/
def WorkflowEdge.source : WorkflowEdge → String
  | .plain source _ => source
  | .switch source _ _ => source

/-- What routing selects: a node id, or the inherited member of a `cases` record
that a value happened to name. -/
inductive RouteTarget where
  | node (nodeId : String)
  | inherited (name : String)
  deriving DecidableEq

/-- Names every plain record inherits. -/
def isInheritedName (key : String) : Bool :=
  inheritedMember key ≠ .undefined

/-- `text.slice(opening.length)` when the text starts with the opening. -/
def dropOpening? (opening text : List Char) : Option (List Char) :=
  if opening.isPrefixOf text then some (text.drop opening.length) else none

/-- `getByPath`: follow the parts of `$.a.b` from a value. -/
def getByPath (value : JsRef) (jsonPath : List Char) : Except String JsRef :=
  match dropOpening? ['$', '.'] jsonPath with
  | none => .error s!"Unsupported JSON path: {String.ofList jsonPath}"
  | some path =>
      .ok ((path.splitOn '.').foldl
        (fun current part =>
          if current.isObject then current.get (String.ofList part) else .undefined)
        value)

/-- `getBySwitchPath`. -/
def getBySwitchPath (output result : JsRef) (jsonPath : String) : Except String JsRef :=
  match dropOpening? "$result.".toList jsonPath.toList with
  | some rest => getByPath result ('$' :: '.' :: rest)
  | none =>
      match dropOpening? "$output.".toList jsonPath.toList with
      | some rest => getByPath output ('$' :: '.' :: rest)
      | none => getByPath output jsonPath.toList

/-- `String(value)` for the scalars a switch accepts. -/
def scalarText : JsRef → Option String
  | .value (.str s) => some s
  | .value (.num n) => some n.text
  | .value (.bool true) => some "true"
  | .value (.bool false) => some "false"
  | _ => none

/-- `JSON.stringify(value)` of a scalar, for the error text. -/
def scalarJson : JsRef → String
  | .value v => stringify v
  | _ => "undefined"

/-- `resolveSwitchTarget`. An own case wins over an inherited member, and an
empty target is as absent as a missing one. -/
def resolveSwitchTarget (on : String) (cases : List (String × String)) (output result : JsRef) :
    Except String RouteTarget := do
  let value ← getBySwitchPath output result on
  match scalarText value with
  | none => .error s!"Workflow switch value must be scalar for {on}"
  | some text =>
      match cases.lookup text with
      | some target =>
          if target = "" then
            .error s!"No workflow switch case for {on}={scalarJson value}"
          else .ok (.node target)
      | none =>
          if isInheritedName text then .ok (.inherited text)
          else .error s!"No workflow switch case for {on}={scalarJson value}"

/-- `edges.find((candidate) => candidate.from === from)`. -/
def outgoingEdge (edges : List WorkflowEdge) (source : String) : Option WorkflowEdge :=
  edges.find? fun candidate => candidate.source = source

/-- `resolveNext`: the route after a node completed with an output. -/
def resolveNext (edges : List WorkflowEdge) (source : String) (output result : JsRef) :
    Except String (Option RouteTarget) :=
  match outgoingEdge edges source with
  | none => .ok none
  | some (.plain _ target) => .ok (some (.node target))
  | some (.switch _ on cases) => (resolveSwitchTarget on cases output result).map some

/-- `resolveNextForOutcome`: the route after a failure, on `$result.` switches only. -/
def resolveNextForOutcome (edges : List WorkflowEdge) (source : String) (result : JsRef) :
    Except String (Option RouteTarget) :=
  match outgoingEdge edges source with
  | none => .ok none
  | some (.plain _ _) => .ok none
  | some (.switch _ on cases) =>
      if "$result.".toList.isPrefixOf on.toList then
        (resolveSwitchTarget on cases .undefined result).map some
      else .ok none

end PiWorkflows
