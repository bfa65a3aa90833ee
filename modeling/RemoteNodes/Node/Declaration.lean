import RemoteNodes.Fault
import RemoteNodes.GraphQL.Parser
/-!
Declarations of node types: the remote type to be fetched as nodes, with the queries for it. The
queries hold exactly one fragment, the ID fragment, which is made on that type.

* `NodeDeclaration.read`: the queries and the ID fragment of a valid declaration.
* `Document.parse`: a document, or the fault that the text cannot be read.
-/

namespace RemoteNodes

/-- The document that a text writes. -/
def Document.parse (text : String) : Except Fault Document :=
  match Document.parse? text with
  | some document => .ok document
  | none => .error .unreadableGraph

/-- A remote type to be fetched as nodes. -/
structure NodeDeclaration where
  type : String
  queries : String
  deriving Repr, DecidableEq, Inhabited

namespace NodeDeclaration

/-- The queries and the ID fragment of the declaration at a position. -/
def read (d : NodeDeclaration) (index : Nat) : Except Fault (Document × Fragment) := do
  if d.type == "" then throw (.configuration (.unnamedType index))
  if d.queries == "" then throw (.configuration (.noQueries d.type index))
  let document ← Document.parse d.queries
  match document.fragments with
  | [fragment] =>
    if fragment.condition != d.type then
      throw (.configuration (.idFragmentElsewhere fragment.name d.type fragment.condition index))
    return (document, fragment)
  | fragments => throw (.configuration (.idFragmentCount d.type index fragments.length))

end NodeDeclaration

end RemoteNodes
