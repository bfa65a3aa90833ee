import RemoteNodes.Node.Reference
import RemoteNodes.Selection.Rewrite
/-!
Shallow fragments: selections of other nodes give way to references. With `User` a node type,

    { author { firstName email } }

becomes `{ author { __typename id } }`. A field of an abstract type that can be a node gets one
inline fragment for each possible type: nodes give their reference fields, the others keep the
selections that apply to them.

* `ShallowRewriting.rewriting`: the rewriting.
* `ShallowRewriting.keptFor`: the selections of an abstract type that apply to a possible type.
-/

namespace RemoteNodes

/-- What the rewriting depends on. -/
structure ShallowRewriting where
  schema : Schema
  references : References
  /-- The types of the custom fragments by their names. -/
  fragmentTypes : Keyed String

namespace ShallowRewriting

/-- Whether the type of a name is abstract and a possible type lies under it. -/
def isAbove (r : ShallowRewriting) (condition possible : String) : Bool :=
  match r.schema.type? condition with
  | some t => t.isAbstract && r.schema.isSubType t possible
  | none => false

/-- The selections that apply to a possible type: all fields, what stands inside inline fragments
on it, inline fragments on types above it, and spreads of custom fragments on it. -/
def keptFor (r : ShallowRewriting) (possible : String) : List Selection → List Selection
  | [] => []
  | .field alias? name arguments directives selections? :: ss =>
    .field alias? name arguments directives selections? :: r.keptFor possible ss
  | .inline none _ selections :: ss => r.keptFor possible selections ++ r.keptFor possible ss
  | .inline (some condition) directives selections :: ss =>
    (if condition == possible then r.keptFor possible selections
    else if r.isAbove condition possible then [.inline (some condition) directives selections]
    else []) ++ r.keptFor possible ss
  | .spread fragment directives :: ss =>
    (if Keyed.get? r.fragmentTypes fragment == some possible then [.spread fragment directives]
    else []) ++ r.keptFor possible ss

/-- What a possible type selects: its reference fields if it is a node, else what applies to it.
The type name is left to the field itself. -/
def selectionsFor (r : ShallowRewriting) (selections : List Selection) (possible : String) :
    List Selection :=
  (match Keyed.get? r.references possible with
    | some reference => reference.selections
    | none => r.keptFor possible selections).filter (!·.isTypename)

/-- The selections of a field of an abstract type, split by possible types. -/
def split (r : ShallowRewriting) (t : NamedType) (selections : List Selection) : List Selection :=
  .plain "__typename" :: (r.schema.possibleTypes t).filterMap fun p =>
    match r.selectionsFor selections p.name with
    | [] => none
    | ss => some (.inline (some p.name) [] ss)

/-- The selections that take the place of those of a field. -/
def replacement (r : ShallowRewriting) (type : TypeRef) (selections : List Selection) :
    List Selection :=
  match Keyed.get? r.references type.namedType with
  | some reference => reference.selections
  | none =>
    match r.schema.namedType? type with
    | some t =>
      if t.isAbstract && (r.schema.possibleTypes t).any (fun p => Keyed.has r.references p.name)
      then r.split t selections
      else selections
    | none => selections

/-- A field with its selections replaced, if its type is known and it selects anything. -/
def field (r : ShallowRewriting) (parent? : Option NamedType) : Selection → Selection
  | .field alias? name arguments directives (some selections) =>
    if selections.isEmpty then .field alias? name arguments directives (some selections)
    else
      match r.schema.fieldType? parent? name with
      | none => .field alias? name arguments directives (some selections)
      | some type => .field alias? name arguments directives (some (r.replacement type selections))
  | s => s

/-- The rewriting that makes fragments shallow. -/
def rewriting (r : ShallowRewriting) : Rewriting := { field := r.field }

end ShallowRewriting

/-- Fragments with the selections of other nodes replaced with references. -/
def makeShallow (schema : Schema) (references : References) (customFragments : List Fragment)
    (fragments : List Fragment) : List Fragment :=
  let r : ShallowRewriting :=
    ⟨schema, references, Keyed.ofPairs (customFragments.map fun f => (f.name, f.condition))⟩
  fragments.map (·.rewrite schema r.rewriting)

end RemoteNodes
