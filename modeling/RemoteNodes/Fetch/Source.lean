import RemoteNodes.Document.Alias
import RemoteNodes.Document.Compile
import RemoteNodes.Fetch.Pagination
import RemoteNodes.Node.Identity
/-!
Fetching nodes with compiled documents. A fetched node gets the paginated fields that the
operations of its type fetch for it.

* `Sourcing`: what all fetching shares.
* `Sourcing.nodeList`, `Sourcing.allNodes`: the nodes of one operation and of all listing
  operations.
* `Sourcing.nodeById`, `Sourcing.nodesByIds`: nodes fetched again by their identifying values.
* `Sourcing.addFields`: a node with its paginated fields.
* `Sourcing.source`: all nodes of all types, as records.
-/

namespace RemoteNodes

/-- What all fetching shares. -/
structure Sourcing (σ : Type) where
  definitions : Keyed NodeDefinition
  execute : Executor σ
  aliases : Aliases := defaultAliases
  strategies : List PageStrategy := [.limitOffset, .relayForward]
  /-- How many pages a walk has room for. Walks have no such bound of their own, and go on for as
  long as there are pages: the cut only makes them total. What is said of complete walks holds for
  every bound that leaves them enough room. -/
  pageLimit : Nat

/-- A node of a type with its id. -/
structure NodeRecord where
  type : String
  id : String
  node : Json
  deriving Repr

/-- The fields of a list of pairs, written over `node`. Each pair is a key and a value. -/
def mergePairs (index : Nat) (node : Keyed Json) : List Json → Except Fault (Keyed Json)
  | [] => .ok node
  | pair :: pairs =>
    match pair.elements? with
    | some [.str key, value] => mergePairs (index + 1) (Keyed.put node key value) pairs
    | some [_, _] => .error .malformed
    | some items => .error (.notPairs index items.length)
    | none => .error .malformed

/-- A node with fetched fields written over it. -/
def mergeFields (node : Keyed Json) (fetched : Json) : Except Fault (Keyed Json) :=
  match fetched.or (.obj []) with
  | .obj fields => .ok (Keyed.overlay node fields)
  | .arr pairs => mergePairs 0 node pairs
  | .str _ => .error (.notPairs 0 1)
  | _ => .error .malformed

namespace NodeDefinition

/-- The identifying values of a node. -/
def pickId (d : NodeDefinition) (node : Json) : Except Fault (Keyed Json) := do
  let f ← d.idFragment
  f.pickId node

/-- The id of a node. -/
def nodeId (d : NodeDefinition) (node : Json) : Except Fault String := do
  return RemoteNodes.nodeId (.obj (← d.pickId node))

end NodeDefinition

namespace Sourcing

variable {σ : Type}

/-- The definition of a node type. -/
def definition (s : Sourcing σ) (type : String) : Except ConfigurationFault NodeDefinition :=
  match Keyed.get? s.definitions type with
  | some d => .ok d
  | none => .error (.noDefinition type)

/-- A node with the field that an operation fetches for it. -/
def addField (s : Sourcing σ) (d : NodeDefinition) (bindings : Keyed Json)
    (node : Keyed Json) (operation : String) : Session σ (Keyed Json) := do
  let plan ← (PagePlan.make d.document operation bindings s.strategies : Except Fault PagePlan)
  let some response ← plan.combine s.execute s.pageLimit | return node
  let data ← response.key "data"
  if !data.isTruthy then return node
  let path ← (d.document.nodePath operation : Except Fault (List String))
  mergeFields node (data.atPath path)

/-- A node with all its paginated fields. -/
def addFields (s : Sourcing σ) (d : NodeDefinition) (node : Json) : Session σ Json := do
  let operations := d.document.fieldOperations
  if operations.isEmpty then return node
  let bindings := nodeVariables (← d.pickId node)
  return .obj (← operations.foldlM (s.addField d bindings) (← node.fields))

/-- The nodes of a page, with their paginated fields. -/
def pageNodes (s : Sourcing σ) (d : NodeDefinition) (plan : PagePlan) (page : Page) :
    StateM σ (Harvest Json) :=
  match plan.strategy.items page.value with
  | .error fault => return ⟨[], some fault⟩
  | .ok nodes => Harvest.each (s.addFields d) nodes

/-- The nodes that an operation lists, page by page. -/
def nodeList (s : Sourcing σ) (type operation : String) : StateM σ (Harvest Json) :=
  let prepared : Except ConfigurationFault (NodeDefinition × PagePlan) := do
    let d ← s.definition type
    return (d, ← PagePlan.make d.document operation [] s.strategies)
  match prepared with
  | .error cause => return ⟨[], some (.configuration cause)⟩
  | .ok (d, plan) => plan.walk s.execute (s.pageNodes d plan) s.pageLimit plan.strategy.start

/-- The nodes that all listing operations of a type list. -/
def allNodes (s : Sourcing σ) (type : String) : Session σ (List Json) := do
  let d ← (s.definition type : Except Fault NodeDefinition)
  Session.gather (Harvest.flatEach (s.nodeList type) d.document.listOperations)

/-- The node with the identifying values, fetched by the first re-fetching operation of its type. -/
def nodeById (s : Sourcing σ) (type : String) (id : Json) : Session σ (Option Json) := do
  let d ← (s.definition type : Except Fault NodeDefinition)
  let some operation := d.document.nodeOperations.head?
    | throw (.configuration (.noNodeOperation type))
  let response ← s.execute ⟨d.document.text, operation, nodeVariables (← id.fields)⟩
  let data ← responseData response
    ("Could not execute " ++ operation ++ " query for " ++ type ++ " node type")
  let path ← (d.document.nodePath operation : Except Fault (List String))
  let node :=
    match data.atPath path with
    | .arr nodes => nodes.head?.getD .null
    | node => node
  if node.isNull then return none
  return some (← s.addFields d node)

/-- The nodes with identifying values, by type in the order in which types come first. -/
def nodesByIds (s : Sourcing σ) (ids : List (String × Json)) :
    Session σ (Keyed (List Json)) :=
  ids.foldlM
    (fun found (type, id) => do
      let node? ← s.nodeById type id
      return Keyed.update found type [] (· ++ node?.toList))
    []

/-- The record of a node: none if the node says that it is of another type. -/
def record (s : Sourcing σ) (type : String) (d : NodeDefinition) (node : Json) :
    Except Fault (Option NodeRecord) := do
  let fields ← node.fields
  let key := (Keyed.get? s.aliases "__typename").getD "__typename"
  match Keyed.get? fields key with
  | some (.str name) => if name != type then return none
  | some _ => return none
  | none => pure ()
  return some ⟨type, ← d.nodeId node, node⟩

/-- The records of fetched nodes, up to the first fault. -/
def records (s : Sourcing σ) (nodes : List (String × NodeDefinition × Json)) :
    Harvest NodeRecord :=
  match nodes with
  | [] => ⟨[], none⟩
  | (type, d, node) :: rest =>
    match s.record type d node with
    | .error fault => ⟨[], some fault⟩
    | .ok record? =>
      let others := s.records rest
      ⟨record?.toList ++ others.items, others.fault?⟩

/-- What fetching each type gives. Every type is fetched to its end, also after a fault. -/
def fetchTypes (s : Sourcing σ) :
    List (String × NodeDefinition) →
      StateM σ (List (String × NodeDefinition × Except Fault (List Json)))
  | [] => pure []
  | (type, d) :: rest => do
    let outcome ← (s.allNodes type).run
    return (type, d, outcome) :: (← s.fetchTypes rest)

/-- All nodes of all types: the nodes by type, and the records of those that belong to the type that
they were fetched for. If a type cannot be fetched there are no records. -/
def source (s : Sourcing σ) : StateM σ (Harvest NodeRecord × List (String × List Json)) := do
  let outcomes ← s.fetchTypes s.definitions
  let fetched : Except Fault (List (String × NodeDefinition × List Json)) :=
    outcomes.mapM fun (type, d, outcome) => do return (type, d, ← outcome)
  match fetched with
  | .error fault => return (⟨[], some fault⟩, [])
  | .ok types =>
    return (s.records (types.flatMap fun (type, d, nodes) => nodes.map fun n => (type, d, n)),
      types.map fun (type, _, nodes) => (type, nodes))

end Sourcing

end RemoteNodes
