import RemoteNodes.GraphQL.Document
import RemoteNodes.Selection.Spread
/-!
Fragments within reach of a definition.

* `Document.spreadsOf`: the names that the fragment of a name spreads.
* `reach`: a breadth-first walk along spreads.
* `Document.reachable`: the names within reach of given names, in the order in which they are found;
  names without a fragment are among them.
-/

namespace RemoteNodes

/-- The names that the definition of a fragment spreads; the last definition of a name counts. -/
def Document.spreadsOf (document : Document) (name : String) : List String :=
  match document.fragments.reverse.find? (·.name == name) with
  | some f => spreadNamesIn f.selections
  | none => []

/-- Appends the names that are not there yet, one after the other. -/
def appendNew (found : List String) : List String → List String
  | [] => found
  | name :: names =>
    if found.contains name then appendNew found names else appendNew (found ++ [name]) names

/-- Walks along spreads. The names up to `position` have been seen to, the others found so far
wait. -/
def reach (next : String → List String) : (fuel position : Nat) → List String → List String
  | 0, _, found => found
  | fuel + 1, position, found =>
    match found[position]? with
    | none => found
    | some name => reach next fuel (position + 1) (appendNew found (next name))

/-- The number of spreads in the fragments of a document, which bounds a walk along them. -/
def Document.spreadCount (document : Document) : Nat :=
  (document.fragments.flatMap fun f => spreadNamesIn f.selections).length

/-- The names within reach of given names, which come first. -/
def Document.reachable (document : Document) (names : List String) : List String :=
  let start := appendNew [] names
  reach document.spreadsOf (start.length + document.spreadCount + 1) 0 start

end RemoteNodes
