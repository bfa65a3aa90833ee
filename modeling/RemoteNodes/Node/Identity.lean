import RemoteNodes.Fault
import RemoteNodes.GraphQL.Document
/-!
Identity of remote nodes. The ID fragment of a node type says which values of a node identify it.

* `Fragment.pickId`: the identifying values of a node, keyed by field names.
* `nodeId`: all identifying values joined into one text.
* `nodeVariables`: the identifying values as variables of a query.
-/

namespace RemoteNodes

mutual
/-- The value that a selection picks out of an object with its key: none for selections that pick
nothing. Below the top level (`nested`) the type name is not picked. -/
def pickOne (nested : Bool) (fields : Keyed Json) :
    Selection → Except NodeFault (Option (String × Json))
  | .field alias? name _ _ selections? =>
    if nested && name == "__typename" then .ok none
    else
      let key := Selection.responseKey alias? name
      match (Keyed.get? fields key).getD .null with
      | .null => .error (.missingValue key (Keyed.keys fields))
      | value =>
        match selections? with
        | none => .ok (some (name, value))
        | some selections =>
          match value with
          | .obj inner => do
            let picked ← pickEach true inner selections
            return some (name, .obj (Keyed.ofPairs picked))
          | other => .error (.notAnObject other)
  | _ => .ok none
/-- The values that selections pick out of an object. -/
def pickEach (nested : Bool) (fields : Keyed Json) :
    List Selection → Except NodeFault (List (String × Json))
  | [] => .ok []
  | s :: ss => do
    let first ← pickOne nested fields s
    let rest ← pickEach nested fields ss
    return first.toList ++ rest
end

/-- The identifying values of a node: read by response keys, kept by field names. -/
def Fragment.pickId (f : Fragment) (node : Json) : Except NodeFault (Keyed Json) :=
  match node with
  | .obj fields => Keyed.ofPairs <$> pickEach false fields f.selections
  | other => .error (.notAnObject other)

mutual
/-- The values inside an object, of its inner objects too, in order. -/
def Json.leaves : Json → List Json
  | .obj fields => fieldLeaves fields
  | value => [value]
/-- The values inside fields. -/
def fieldLeaves : List (String × Json) → List Json
  | [] => []
  | (_, x) :: fields => x.leaves ++ fieldLeaves fields
end

/-- All identifying values joined into one text. -/
def nodeId (values : Json) : String :=
  ":".intercalate (values.leaves.map Json.display)

/-- The identifying values as variables of a query. -/
def nodeVariables (values : Keyed Json) : Keyed Json :=
  values.filter fun p => p.1 != "__typename"

/-- A node fault is a fault. -/
instance : MonadLift (Except NodeFault) (Except Fault) :=
  ⟨Except.mapError Fault.node⟩

end RemoteNodes
