import RemoteNodes.Node.Shallow
import RemoteNodes.Node.Usage
/-!
The fragments that custom fragments compile to. Those on a node type or one of its interfaces
belong to that node type; the others are shared by all documents. All of them are shallow.

* `nodeFragments`: the fragments of each node type.
* `otherFragments`: the custom fragments on other types.
* `dropRepeated`: an extracted fragment that selects the same as an earlier one is left out.
-/

namespace RemoteNodes

/-- A node type and the interfaces that it implements. -/
def nodeTypeNames (schema : Schema) (type : String) : List String :=
  match (schema.type? type).filter (·.isObject) with
  | some t => type :: t.interfaces
  | none => []

/-- Whether two fragments on the same type select the same. -/
def Fragment.same (a b : Fragment) : Bool :=
  a.condition == b.condition && selectionsInclude a.selections b.selections &&
    selectionsInclude b.selections a.selections

/-- The fragments without those that select the same as an earlier one, except for custom ones. -/
def dropRepeated (customNames : List String) (fragments : List Fragment) : List Fragment :=
  fragments.foldl
    (fun kept f =>
      if !customNames.contains f.name && kept.any (·.same f) then kept else kept ++ [f])
    []

/-- The fragments that usages of a type and its interfaces make up. -/
def usageFragments (schema : Schema) (usages : Usages) (type : String) : List Fragment :=
  (nodeTypeNames schema type).flatMap fun name =>
    ((Keyed.get? usages name).getD []).filterMap fun (path, selections) =>
      if selections.isEmpty then none else some { name := path, condition := name, selections }

/-- The fragments of each node type. -/
def nodeFragments (schema : Schema) (declarations : List NodeDeclaration) (usages : Usages)
    (references : References) (customFragments : List Fragment) : Keyed (List Fragment) :=
  Keyed.ofPairs (declarations.map fun d =>
    (d.type, dropRepeated (customFragments.map (·.name))
      (makeShallow schema references customFragments (usageFragments schema usages d.type))))

/-- The custom fragments on types other than node types and their interfaces. -/
def otherFragments (schema : Schema) (declarations : List NodeDeclaration)
    (references : References) (customFragments : List Fragment) : List Fragment :=
  let names := declarations.flatMap fun d => nodeTypeNames schema d.type
  makeShallow schema references customFragments
    (customFragments.filter fun f => !names.contains f.condition)

end RemoteNodes
