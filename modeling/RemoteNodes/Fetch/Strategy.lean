import RemoteNodes.Json.Shape
/-!
Strategies of pagination: how a list is asked for page by page, and how its pages are put together.

* `PageStrategy.start`: the variables of the first page and an empty result.
* `PageStrategy.joined`: the result with one more page.
* `PageStrategy.addPage`: that, with the variables of the next page and whether there is one.
* `PageStrategy.items`: the items of a result.
* `PageStrategy.resolve`: the first strategy that fits the variables of an operation.
-/

namespace RemoteNodes

/-- A way to ask for pages. -/
inductive PageStrategy where
  /-- By `limit` and `offset`: a page is a list, and a page of another length than the limit is the
  last. -/
  | limitOffset
  /-- By `first` and `after`: a page is a connection with edges, whose last edge has the cursor for
  the next page. -/
  | relayForward
  deriving Repr, DecidableEq, Inhabited

/-- What is known between two pages. -/
structure PageState where
  /-- The variables that ask for the next page. -/
  bindings : Keyed Json
  /-- All pages so far, put together as one. -/
  result : Json
  hasNext : Bool
  deriving Repr, Inhabited

/-- The number of items asked for at a time. -/
def pageSize : Int := 100

/-- The integer of a variable, `fallback` if it is absent. -/
def numberOr (fallback : Int) (bindings : Keyed Json) (name : String) : Except Fault Int :=
  (((Keyed.get? bindings name).getD .null).or (.int fallback)).toInt

/-- A page of a connection. -/
structure Connection where
  edges : List Json
  info : Json
  deriving Repr

namespace Connection

/-- The connection that a value describes; null is one without edges. -/
def read (page : Json) : Except Fault Connection := do
  let page := page.or (.obj [])
  match (← page.key "edges").or (.arr []) with
  | .obj _ => throw .malformed
  | edges => return ⟨← edges.elements, (← page.key "pageInfo").or (.obj [])⟩

/-- The last edge, null if there is none. -/
def last (c : Connection) : Json := c.edges.getLast?.getD .null

end Connection

namespace PageStrategy

/-- The name of a strategy in messages. -/
def name : PageStrategy → String
  | limitOffset => "LimitOffset"
  | relayForward => "RelayForward"

/-- Whether variables of these names can ask for pages. -/
def accepts (names : List String) : PageStrategy → Bool
  | limitOffset => names.contains "limit" && names.contains "offset"
  | relayForward => names.contains "first" && names.contains "after"

/-- Before the first page. -/
def start : PageStrategy → PageState
  | limitOffset => ⟨[("limit", .int pageSize), ("offset", .int 0)], .arr [], true⟩
  | relayForward =>
    ⟨[("first", .int pageSize), ("after", .null)],
      .obj [("edges", .arr []), ("pageInfo", .obj [("hasNextPage", .bool true)])], true⟩

/-- The result with one more page put to it. -/
def joined (strategy : PageStrategy) (state : PageState) (page : Json) : Except Fault Json :=
  match strategy with
  | limitOffset => do
    let _ ← numberOr pageSize state.bindings "limit"
    let before ← state.result.elements
    return .arr (before ++ (← (page.or (.arr [])).elements))
  | relayForward => do
    let c ← Connection.read page
    match state.result.field? "edges" with
    | none => throw .malformed
    | some before =>
      return .obj [("pageInfo", c.info), ("edges", .arr ((← before.elements) ++ c.edges))]

/-- One more page: the result with it, and how to ask for the next page. -/
def addPage (strategy : PageStrategy) (state : PageState) (page : Json) :
    Except Fault PageState := do
  let result ← strategy.joined state page
  match strategy with
  | limitOffset =>
    let limit ← numberOr pageSize state.bindings "limit"
    let offset ← numberOr 0 state.bindings "offset"
    let items ← (page.or (.arr [])).elements
    return ⟨[("limit", .int limit), ("offset", .int (offset + limit))], result,
      items.length == limit⟩
  | relayForward =>
    let c ← Connection.read page
    let first ← numberOr pageSize state.bindings "first"
    let after ← if c.last.isTruthy then c.last.key "cursor" else pure .null
    let more ← c.info.key "hasNextPage"
    return ⟨[("first", .int first), ("after", after)], result,
      more.isTruthy && c.last.isTruthy⟩

/-- The result after a page was given. The page counts even if the next one cannot be asked for. -/
def resultAfter (strategy : PageStrategy) (state : PageState) (page : Json) : Json :=
  match strategy.joined state page with
  | .ok result => result
  | .error _ => state.result

/-- The items of a result or of a page. -/
def items : PageStrategy → Json → Except Fault (List Json)
  | limitOffset, result => (result.or (.arr [])).elements
  | relayForward, result => do
    (← Connection.read result).edges.mapM fun edge => edge.key "node"

/-- The first strategy that accepts variables of these names. -/
def resolve (strategies : List PageStrategy) (names : List String) :
    Except ConfigurationFault PageStrategy :=
  match strategies.find? (·.accepts names) with
  | some strategy => .ok strategy
  | none => .error (.noStrategy (names.eraseDups.mergeSort fun a b => decide (a ≤ b)))

end PageStrategy

end RemoteNodes
