import RemoteNodes.Fragment.ArgumentLiteral
/-!
Type fragments: one fragment for each composite type, named after the type and selecting all of its
fields. A composite field spreads the fragment of its type, so these fragments may form cycles:

    fragment Foo on Foo { id bar { ...Bar } }

The fragment of an abstract type spreads those of its possible types.

* `ArgumentResolver`: supplies values for the arguments of fields.
* `resolveArguments`: the arguments of a field; of several values the first one counts.
* `fieldArguments`: the arguments of all fields of a type, each by itself.
* `fieldSelection?`: the selection of a field, unless a required argument has no value.
* `typeFragments`: the fragments of all composite types, in type order.
-/

namespace RemoteNodes

/-- Supplies values for the arguments of a field, given the names of its type and of the field. An
argument without a value counts as not supplied. -/
abbrev ArgumentResolver := (type field : String) → Keyed (Option Json)

/-- The values that resolvers supply for a field, the first one for each argument. -/
def suppliedValues (resolvers : List ArgumentResolver) (type field : String) : Keyed Json :=
  (resolvers.flatMap fun resolve => resolve type field).foldl
    (fun m p =>
      match p.2 with
      | some value => if Keyed.has m p.1 then m else Keyed.put m p.1 value
      | none => m)
    []

/-- The arguments with literals for the supplied values, in schema order. -/
def argumentsFrom (schema : Schema) (values : Keyed Json) :
    List InputField → Except Fault (List Argument)
  | [] => .ok []
  | input :: rest =>
    match Keyed.get? values input.name with
    | none => argumentsFrom schema values rest
    | some value =>
      match Literal.ofJson schema input.type value with
      | .error e => .error e
      | .ok none => argumentsFrom schema values rest
      | .ok (some literal) =>
        (argumentsFrom schema values rest).map (⟨input.name, literal⟩ :: ·)

/-- The arguments of a field by what resolvers supply. -/
def resolveArguments (schema : Schema) (resolvers : List ArgumentResolver) (type : String)
    (field : OutputField) : Except Fault (List Argument) :=
  argumentsFrom schema (suppliedValues resolvers type field.name) field.arguments

/-- The arguments of every field of a type, by what resolvers supply. The fields of an input object
have no arguments that could be resolved, and other types than these have no fields. -/
def fieldArguments (schema : Schema) (resolvers : List ArgumentResolver) (type : String) :
    Except Fault (Keyed (Except Fault (List Argument))) :=
  match (schema.type? type).map NamedType.shape with
  | some (.object _ fields) | some (.interface _ fields) =>
    .ok (fields.map fun f => (f.name, resolveArguments schema resolvers type f))
  | some (.input fields) => .ok (fields.map fun f => (f.name, .error .malformed))
  | _ => .error .malformed

/-- The selection of a field, if all of its required arguments have values. -/
def fieldSelection? (schema : Schema) (resolvers : List ArgumentResolver) (type : String)
    (field : OutputField) : Except Fault (Option Selection) := do
  let arguments ← resolveArguments schema resolvers type field
  if field.arguments.all fun i => !i.isRequired || arguments.any (·.name == i.name) then
    let selections? :=
      (schema.composite? field.type.namedType).map fun t => [Selection.spread t.name []]
    return some (.field none field.name arguments [] selections?)
  else return none

/-- The fragment of a composite type. -/
def typeFragment (schema : Schema) (resolvers : List ArgumentResolver) (t : NamedType) :
    Except Fault Fragment := do
  let selections ←
    if t.isAbstract then
      pure ((schema.possibleTypes t).map fun p => Selection.spread p.name [])
    else
      pure ((← t.fields.mapM (fieldSelection? schema resolvers t.name)).filterMap id)
  return { name := t.name, condition := t.name, selections }

/-- The fragments of all composite types. -/
def typeFragments (schema : Schema) (resolvers : List ArgumentResolver) :
    Except Fault (Keyed Fragment) := do
  let types := schema.types.filter fun t => !isMetaName t.name && t.isComposite
  let fragments ← types.mapM (typeFragment schema resolvers)
  return fragments.map fun f => (f.name, f)

end RemoteNodes
