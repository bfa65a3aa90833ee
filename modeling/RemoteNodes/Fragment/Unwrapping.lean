import RemoteNodes.GraphQL.Document
/-!
Unwrapping of inline fragments. A selection set whose only selection is an inline fragment that
holds nothing but spreads and inline fragments gives way to what that fragment holds: `{ ... on I
{ ... on A { a } ... on B { b } } }` becomes `{ ... on A { a } ... on B { b } }`.

* `unwrapSet`: a selection set unwrapped from the inside out.
-/

namespace RemoteNodes

/-- The contents of a wrapping inline fragment, or the selections themselves. -/
def unwrapOuter (selections : List Selection) : List Selection :=
  match selections with
  | [.inline _ _ inner] => if inner.all (!·.isField) then inner else selections
  | _ => selections

mutual
/-- A selection with the sets inside it unwrapped. -/
def Selection.unwrap : Selection → Selection
  | .field alias? name arguments directives none => .field alias? name arguments directives none
  | .field alias? name arguments directives (some selections) =>
    .field alias? name arguments directives (some (unwrapOuter (unwrapEach selections)))
  | .spread fragment directives => .spread fragment directives
  | .inline condition? directives selections =>
    .inline condition? directives (unwrapOuter (unwrapEach selections))
/-- Selections with the sets inside each of them unwrapped. -/
def unwrapEach : List Selection → List Selection
  | [] => []
  | s :: ss => s.unwrap :: unwrapEach ss
end

/-- A selection set unwrapped at every level. -/
def unwrapSet (selections : List Selection) : List Selection := unwrapOuter (unwrapEach selections)

/-- A fragment unwrapped at every level. -/
def Fragment.unwrapped (f : Fragment) : Fragment := { f with selections := unwrapSet f.selections }

/-- A document unwrapped at every level. -/
def Document.unwrapped (document : Document) : Document :=
  document.map fun
    | .operation o => .operation { o with selections := unwrapSet o.selections }
    | .fragment f => .fragment f.unwrapped
    | definition => definition

end RemoteNodes
