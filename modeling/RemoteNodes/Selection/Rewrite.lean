import RemoteNodes.Schema.Basic
/-!
Rewriting selections from the inside out while keeping track of types.

* `Schema.fieldType?`, `Schema.inside?`: the type of a field, and the composite type that the
  selections inside a field or an inline fragment are made on.
* `Rewriting`: what becomes of a field and of a selection set once their parts are rewritten.
* `Selection.rewrite`, `rewriteAll`: the traversal.
* `rewriteAll_eq_map`: a list is rewritten selection by selection.
-/

namespace RemoteNodes

namespace Schema

/-- The type of a field selected on a composite type, if both are known. -/
def fieldType? (schema : Schema) (parent? : Option NamedType) (name : String) : Option TypeRef :=
  parent?.bind fun parent => (schema.fieldDefinition? parent name).map (·.type)

/-- The composite type that a field's selections are made on. -/
def insideField? (schema : Schema) (parent? : Option NamedType) (name : String) :
    Option NamedType :=
  (schema.fieldType? parent? name).bind fun type => schema.composite? type.namedType

/-- The composite type that an inline fragment's selections are made on: the one of its condition,
or the surrounding one. -/
def insideInline? (schema : Schema) (parent? : Option NamedType) (condition? : Option String) :
    Option NamedType :=
  match condition? with
  | some condition => schema.composite? condition
  | none => parent?

/-- The object type that an operation selects on. -/
def operationType? (schema : Schema) (kind : OperationKind) : Option NamedType :=
  ((schema.root? kind).bind schema.type?).filter (·.isObject)

end Schema

/-- Where a selection set stands. -/
inductive Owner where
  | definition
  | field
  | inline
  deriving Repr, DecidableEq

/-- What becomes of fields and selection sets whose parts have been rewritten. The composite type
is the one that the field is selected on, or that the set selects on. -/
structure Rewriting where
  field : (parent? : Option NamedType) → Selection → Selection := fun _ s => s
  set : Owner → (parent? : Option NamedType) → List Selection → List Selection := fun _ _ ss => ss

mutual
/-- A selection made on `parent?`, rewritten from the inside out. -/
def Selection.rewrite (schema : Schema) (r : Rewriting) (parent? : Option NamedType) :
    Selection → Selection
  | .field alias? name arguments directives none =>
    r.field parent? (.field alias? name arguments directives none)
  | .field alias? name arguments directives (some selections) =>
    let inside? := schema.insideField? parent? name
    r.field parent? (.field alias? name arguments directives
      (some (r.set .field inside? (rewriteAll schema r inside? selections))))
  | .spread fragment directives => .spread fragment directives
  | .inline condition? directives selections =>
    let inside? := schema.insideInline? parent? condition?
    .inline condition? directives (r.set .inline inside? (rewriteAll schema r inside? selections))
/-- Selections made on `parent?`, each rewritten. -/
def rewriteAll (schema : Schema) (r : Rewriting) (parent? : Option NamedType) :
    List Selection → List Selection
  | [] => []
  | s :: ss => s.rewrite schema r parent? :: rewriteAll schema r parent? ss
end

theorem rewriteAll_eq_map (schema : Schema) (r : Rewriting) (parent? : Option NamedType)
    (ss : List Selection) :
    rewriteAll schema r parent? ss = ss.map (·.rewrite schema r parent?) := by
  induction ss with
  | nil => rfl
  | cons s ss ih => simp [rewriteAll, ih]

/-- An operation with its selections rewritten. -/
def Operation.rewrite (schema : Schema) (r : Rewriting) (o : Operation) : Operation :=
  let parent? := schema.operationType? o.kind
  { o with selections := r.set .definition parent? (rewriteAll schema r parent? o.selections) }

/-- A fragment with its selections rewritten. -/
def Fragment.rewrite (schema : Schema) (r : Rewriting) (f : Fragment) : Fragment :=
  let parent? := schema.composite? f.condition
  { f with selections := r.set .definition parent? (rewriteAll schema r parent? f.selections) }

/-- A document with its operations and fragments rewritten. -/
def Document.rewrite (schema : Schema) (r : Rewriting) (document : Document) : Document :=
  document.map fun
    | .operation o => .operation (o.rewrite schema r)
    | .fragment f => .fragment (f.rewrite schema r)
    | definition => definition

end RemoteNodes
