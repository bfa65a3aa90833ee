import RemoteNodes.Document.Reachable
import RemoteNodes.Fault
import RemoteNodes.Node.Fragments
/-!
Removing fragments from documents.

* `Document.removeUnused`: only operations and the fragments within their reach stay.
* `Document.removeFragments`: named fragments go, with all spreads of them.
* `Document.removeIdDuplicates`: node fragments that select nothing beyond the ID fragment go.
-/

namespace RemoteNodes.Document

/-- Whether all operations are named. -/
def allNamed (document : Document) : Bool := document.operations.all (·.name?.isSome)

/-- The operations and the fragments within their reach, in their order. -/
def removeUnused (document : Document) : Except Fault Document :=
  if document.allNamed then
    let used := document.operations.flatMap fun o =>
      document.reachable (spreadNamesIn (document.operations.reverse.find?
        (·.name? == o.name?) |>.getD o).selections)
    .ok (document.filter fun
      | .operation _ => true
      | .fragment f => used.contains f.name
      | _ => false)
  else .error (.configuration .unnamedQuery)

/-- The document without the named fragments and without spreads of them. -/
def removeFragments (document : Document) (names : List String) : Document :=
  if names.isEmpty then document
  else
    document.filterMap fun
      | .operation o => some (.operation { o with selections := dropSpreadsIn names o.selections })
      | .fragment f =>
        if names.contains f.name then none
        else some (.fragment { f with selections := dropSpreadsIn names f.selections })
      | definition => some definition

/-- The fragments without the first one of a name. -/
def otherThanFirst (name : String) : List Fragment → List Fragment
  | [] => []
  | f :: fs => if f.name == name then fs else f :: otherThanFirst name fs

/-- The names of the fragments on a node type or its interfaces that select nothing beyond the ID
fragment. -/
def idDuplicates (schema : Schema) (type : String) (idFragment : Fragment)
    (others : List Fragment) : List String :=
  let types := nodeTypeNames schema type
  (others.filter fun f =>
    types.contains f.condition && selectionsInclude idFragment.selections f.selections).map (·.name)

/-- The document without fragments that repeat the ID fragment. -/
def removeIdDuplicates (document : Document) (schema : Schema) (type idFragment : String) :
    Except Fault Document :=
  match document.fragments.find? (·.name == idFragment) with
  | none => .error (.configuration (.idFragmentLost type))
  | some f =>
    .ok (document.removeFragments
      (idDuplicates schema type f (otherThanFirst idFragment document.fragments)))

end RemoteNodes.Document
