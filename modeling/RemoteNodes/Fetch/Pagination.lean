import RemoteNodes.Document.FieldPath
import RemoteNodes.Fetch.Session
import RemoteNodes.Fetch.Strategy
import RemoteNodes.GraphQL.Printer
import RemoteNodes.Json.Path
/-!
Walking the pages of an operation. Pages are asked for one after another, since the variables of
each depend on the page before it.

* `PagePlan.make`: the strategy of an operation and the path of its paginated field.
* `PagePlan.walk`: the pages, as long as there is a next one, and what is picked from each.
* `PagePlan.combine`: the last response with all pages put together in it.
* `PagePlan.fetchAll`: the items of all pages.

A walk has a limit on the number of pages, so that a server with pages without end cannot hold it.
-/

namespace RemoteNodes

/-- What is needed to walk the pages of one operation. -/
structure PagePlan where
  document : Document
  operation : String
  strategy : PageStrategy
  /-- The path of the paginated field. -/
  path : List String
  /-- Variables that every page is asked for with. -/
  bindings : Keyed Json
  deriving Repr

/-- A page: the response, the value of the paginated field in it, and what is known after it. -/
structure Page where
  response : Json
  value : Json
  state : PageState
  deriving Repr

namespace PagePlan

/-- The plan for an operation, by the first strategy that accepts its variables. -/
def make (document : Document) (operation : String) (bindings : Keyed Json)
    (strategies : List PageStrategy) : Except ConfigurationFault PagePlan := do
  let names ← document.declaredVariables operation
  let strategy ← PageStrategy.resolve strategies names
  let path ← document.fieldPath operation fun s => strategy.accepts s.argumentVariables
  if path.isEmpty then throw (.noPaginatedField operation strategy.name)
  return { document, operation, strategy, path, bindings }

/-- The request for the next page. -/
def request (plan : PagePlan) (state : PageState) : Request :=
  ⟨plan.document.text, plan.operation, Keyed.overlay plan.bindings state.bindings⟩

/-- The page in a response. -/
def page (plan : PagePlan) (state : PageState) (response : Json) : Except Fault Page := do
  let data ← responseData response ("Could not execute operation " ++ plan.operation)
  let value := data.atPath plan.path
  return ⟨response, value, ← plan.strategy.addPage state value⟩

variable {σ α : Type}

/-- Walks the pages that come after a state and gathers what `pick` gives for each. At most `limit`
pages are asked for, so that the walk has an end against every server. -/
def walk (plan : PagePlan) (execute : Executor σ) (pick : Page → StateM σ (Harvest α)) :
    (limit : Nat) → PageState → StateM σ (Harvest α)
  | 0, state => return ⟨[], if state.hasNext then some .tooManyPages else none⟩
  | limit + 1, state => do
    if !state.hasNext then return ⟨[], none⟩
    match ← (execute (plan.request state)).run with
    | .error fault => return ⟨[], some fault⟩
    | .ok response =>
      match plan.page state response with
      | .error fault => return ⟨[], some fault⟩
      | .ok page =>
        let picked ← pick page
        if picked.fault?.isSome then return picked
        let rest ← walk plan execute pick limit page.state
        return ⟨picked.items ++ rest.items, rest.fault?⟩

/-- All pages. -/
def pages (plan : PagePlan) (execute : Executor σ) (limit : Nat) : StateM σ (Harvest Page) :=
  plan.walk execute (fun page => pure ⟨[page], none⟩) limit plan.strategy.start

/-- A response with the result of all pages at the paginated field. -/
def putTogether (plan : PagePlan) (page : Page) : Json :=
  match page.response with
  | .obj fields =>
    .obj (Keyed.put fields "data"
      (((Keyed.get? fields "data").getD .null).setAt plan.path page.state.result))
  | response => response

/-- The last response with all pages put together in it; none if there was no page. -/
def combine (plan : PagePlan) (execute : Executor σ) (limit : Nat) : Session σ (Option Json) := do
  return (← Session.gather (plan.pages execute limit)).getLast?.map plan.putTogether

/-- The items of all pages. -/
def fetchAll (plan : PagePlan) (execute : Executor σ) (limit : Nat) : Session σ (List Json) := do
  match ← plan.combine execute limit with
  | none => return []
  | some response =>
    plan.strategy.items ((← response.key "data").atPath plan.path)

end PagePlan

end RemoteNodes
