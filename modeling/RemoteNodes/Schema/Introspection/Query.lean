import RemoteNodes.Fetch.Session
import RemoteNodes.GraphQL.Printer
/-!
The question for a schema.

* `Introspection.request`: the query that asks a server for its schema.
-/

namespace RemoteNodes

namespace Introspection

/-- Fields without selections. -/
def leaves (names : List String) : List Selection := names.map fun name => .plain name

/-- A field with selections. -/
def branch (name : String) (selections : List Selection) : Selection :=
  .plain name (some selections)

/-- A list that shows deprecated parts too. -/
def fullList (name : String) (selections : List Selection) : Selection :=
  .field none name [⟨"includeDeprecated", .boolean true⟩] [] (some selections)

/-- What is asked about the schema as a whole. -/
def schemaSelections : List Selection :=
  ["queryType", "mutationType", "subscriptionType"].map (branch · (leaves ["name"])) ++
    [branch "types" [.spread "FullType" []],
      branch "directives"
        (leaves ["name", "description", "locations"] ++ [branch "args" [.spread "InputValue" []]])]

/-- What is asked about a type. -/
def fullTypeSelections : List Selection :=
  leaves ["kind", "name", "description"] ++
    [fullList "fields"
        (leaves ["name", "description"] ++
          [branch "args" [.spread "InputValue" []], branch "type" [.spread "TypeRef" []]] ++
          leaves ["isDeprecated", "deprecationReason"]),
      branch "inputFields" [.spread "InputValue" []],
      branch "interfaces" [.spread "TypeRef" []],
      fullList "enumValues" (leaves ["name", "description", "isDeprecated", "deprecationReason"]),
      branch "possibleTypes" [.spread "TypeRef" []]]

/-- What is asked about an argument or a field of an input object. -/
def inputSelections : List Selection :=
  leaves ["name", "description"] ++ [branch "type" [.spread "TypeRef" []]] ++
    leaves ["defaultValue"]

/-- What is asked about the use of a type under at most `depth` wrappers. -/
def typeSelections : (depth : Nat) → List Selection
  | 0 => leaves ["kind", "name"]
  | depth + 1 => leaves ["kind", "name"] ++ [branch "ofType" (typeSelections depth)]

/-- The query that asks a server for its schema. -/
def document : Document := [
  .operation
    ⟨none, .query, some "IntrospectionQuery", [], [], [branch "__schema" schemaSelections]⟩,
  .fragment ⟨none, "FullType", "__Type", [], fullTypeSelections⟩,
  .fragment ⟨none, "InputValue", "__InputValue", [], inputSelections⟩,
  .fragment ⟨none, "TypeRef", "__Type", [], typeSelections 7⟩]

/-- The request for the schema of a server. -/
def request : Request := ⟨document.text, "IntrospectionQuery", []⟩

end Introspection

end RemoteNodes
