import RemoteNodes.Keyed
import RemoteNodes.Node.Declaration
import RemoteNodes.Schema.Basic
/-!
Reference fragments: the few fields that find a node again, its type name and its ID fields.

* `referenceFragments`: one reference fragment for each node type, in order of declaration, and
  then one for each node interface: an interface whose possible types are all node types and which
  declares all of their ID fields.
* `mergeInto`, `mergeAll`: fields with the same name become one, with their sub-fields merged.
-/

namespace RemoteNodes

/-- Reference fragments by the name of their type. -/
abbrev References := Keyed Fragment

/-- The selections inside the first plain field of this name. -/
def selectionsOf (name : String) : List Selection → Option (List Selection)
  | [] => none
  | .field _ name' _ _ selections? :: ss =>
    if name' == name then selections? else selectionsOf name ss
  | _ :: ss => selectionsOf name ss

/-- Sets the selections of the field of this name, which comes last if it is new. -/
def putField (name : String) (selections? : Option (List Selection)) :
    List Selection → List Selection
  | [] => [.plain name selections?]
  | .field alias? name' arguments directives selections?' :: ss =>
    if name' == name then .plain name selections? :: ss
    else .field alias? name' arguments directives selections?' :: putField name selections? ss
  | s :: ss => s :: putField name selections? ss

mutual
/-- Merges a field into fields that have pairwise distinct names: only names and sub-fields count.
What is no field is left out. -/
def mergeInto (merged : List Selection) : Selection → List Selection
  | .field _ name _ _ none => putField name (selectionsOf name merged) merged
  | .field _ name _ _ (some selections) =>
    putField name (some (mergeAll ((selectionsOf name merged).getD []) selections)) merged
  | _ => merged
/-- Merges fields one after the other. -/
def mergeAll (merged : List Selection) : List Selection → List Selection
  | [] => merged
  | s :: ss => mergeAll (mergeInto merged s) ss
end

/-- The reference fragment of a node type: its type name and the selections of its ID fragment. -/
def Fragment.reference (idFragment : Fragment) (type : String) : Fragment :=
  { name := type, condition := type,
    selections := .plain "__typename" :: idFragment.selections.filter (!·.isTypename) }

/-- Whether an interface declares all the fields selected. -/
def declaresAll (interface : NamedType) (selections : List Selection) : Bool :=
  selections.all fun
    | .field _ name .. => (interface.field? name).isSome || name == "__typename"
    | _ => false

/-- The reference fragments of the declared types, with their types, in order. -/
def typeReferences (schema : Schema) :
    (index : Nat) → List NodeDeclaration → Except Fault (List (NamedType × Fragment))
  | _, [] => .ok []
  | index, d :: ds => do
    let (_, idFragment) ← d.read index
    match (schema.type? d.type).filter (·.isObject) with
    | none => throw (.configuration (.notAnObjectType d.type index))
    | some type =>
      let rest ← typeReferences schema (index + 1) ds
      return (type, idFragment.reference d.type) :: rest

/-- The interfaces of types in order of first mention. -/
def mentionedInterfaces (types : List NamedType) : List String :=
  (types.flatMap (·.interfaces)).eraseDups

/-- The reference fragment of an interface, if it is a node interface. -/
def interfaceReference? (schema : Schema) (references : References) (name : String) :
    Option Fragment := do
  let interface ← schema.type? name
  let fragments ← (schema.possibleTypes interface).mapM fun t => Keyed.get? references t.name
  let selections := mergeAll [] (fragments.flatMap (·.selections))
  if declaresAll interface selections then
    some { name, condition := name, selections }
  else none

/-- The reference fragments of all node types and node interfaces. -/
def referenceFragments (schema : Schema) (declarations : List NodeDeclaration) :
    Except Fault References := do
  let entries ← typeReferences schema 0 declarations
  let references := Keyed.ofPairs (entries.map fun p => (p.1.name, p.2))
  let interfaces := (mentionedInterfaces (entries.map (·.1))).filterMap fun name =>
    (interfaceReference? schema references name).map (name, ·)
  return Keyed.overlay references interfaces

end RemoteNodes
