import RemoteNodes.Schema.Coercion
/-!
Schemas out of plans of their types.

* `TypePlan`: a type whose parts depend on the other types.
* `Schema.scope`: the types of plans as they see each other.
* `Schema.assemble`: the schema. The scalar types of the language belong to it if something
  mentions them.
-/

namespace RemoteNodes

/-- A type that is to become part of a schema. Its parts depend on the other types, because a
default depends on the fields of input objects. -/
structure TypePlan where
  name : String
  outline : TypeOutline
  shape : TypeScope → Except Fault TypeShape

namespace Schema

/-- The plan of a scalar type. -/
def scalarPlan (name : String) : TypePlan := ⟨name, .scalar, fun _ => .ok .scalar⟩

/-- The types of plans as they see each other. The fields of an input object may need those of
others, down to `depth`; a longer chain than there are types turns in a circle and has no end. -/
def scope (plans : List TypePlan) : (depth : Nat) → TypeScope
  | 0 => ⟨plans.map fun p => (p.name, p.outline), fun _ => .error .invalidSchema⟩
  | depth + 1 =>
    { outlines := plans.map fun p => (p.name, p.outline)
      inputFields := fun name =>
        match plans.find? (·.name == name) with
        | some plan => (plan.shape (scope plans depth)).map (·.inputs)
        | none => .error .invalidSchema }

/-- A schema from the plans of its types, its directives and its root types. What is wrong with the
directives shows before what is wrong with the types. -/
def assemble (plans : List TypePlan) (directives : TypeScope → Except Fault (List DirectiveType))
    (query? mutation? subscription? : Option String) : Except Fault Schema := do
  let scope := scope plans (plans.length + 1)
  let directives ← directives scope
  let types ← plans.mapM fun p => do
    return (⟨p.name, ← p.shape scope⟩ : NamedType)
  let mentioned := types.flatMap (·.shape.mentioned) ++
    directives.flatMap fun d => d.arguments.map (·.type.namedType)
  let scalars := builtinScalars.filter fun s =>
    mentioned.contains s && types.all (·.name != s)
  return { types := types ++ scalars.map (⟨·, .scalar⟩)
           directives, query?, mutation?, subscription? }

end Schema

end RemoteNodes
