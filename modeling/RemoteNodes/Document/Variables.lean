import RemoteNodes.Document.Reachable
import RemoteNodes.Fault
import RemoteNodes.Keyed
import RemoteNodes.Selection.Rewrite
/-!
Declaring variables. An operation declares every variable that is used in it or in a fragment
within its reach, with the type of the place where the variable is first used.

* `Literal.uses`, `Selection.uses`: the variables with the types of their places.
* `Document.declareVariables`: the stage.
-/

namespace RemoteNodes

/-- A use of a variable and the type of its place, if that is known. -/
structure VariableUse where
  name : String
  type? : Option TypeRef
  deriving Repr, DecidableEq

/-- The type of the items of a list literal. A literal at a type that is no list stands for an
item. -/
def itemType? (type? : Option TypeRef) : Option TypeRef :=
  type?.map fun type =>
    match type.nullable with
    | .list item => item
    | other => other

/-- The type of a field of an object literal. -/
def Schema.objectFieldType? (schema : Schema) (type? : Option TypeRef) (name : String) :
    Option TypeRef :=
  type?.bind fun type =>
    (schema.namedType? type).bind fun t =>
      match t.shape with
      | .input fields => (fields.find? (·.name == name)).map (·.type)
      | _ => none

mutual
/-- The variables in a literal that stands at a place of the type. -/
def Literal.uses (schema : Schema) (type? : Option TypeRef) : Literal → List VariableUse
  | .variable name => [⟨name, type?⟩]
  | .list items => itemUses schema (itemType? type?) items
  | .object fields => fieldUses schema type? fields
  | _ => []
/-- The variables in the items of a list. -/
def itemUses (schema : Schema) (type? : Option TypeRef) : List Literal → List VariableUse
  | [] => []
  | x :: xs => x.uses schema type? ++ itemUses schema type? xs
/-- The variables in the fields of an object of the type. -/
def fieldUses (schema : Schema) (type? : Option TypeRef) : List (String × Literal) →
    List VariableUse
  | [] => []
  | (k, x) :: xs =>
    x.uses schema (schema.objectFieldType? type? k) ++ fieldUses schema type? xs
end

/-- The variables in arguments that are declared as `inputs`. -/
def argumentUses (schema : Schema) (inputs : List InputField) (arguments : List Argument) :
    List VariableUse :=
  arguments.flatMap fun a =>
    a.value.uses schema ((inputs.find? (·.name == a.name)).map (·.type))

/-- The variables in directives. The arguments of an unknown directive are taken for those of the
surrounding field. -/
def directiveUses (schema : Schema) (inputs : List InputField) (directives : List Directive) :
    List VariableUse :=
  directives.flatMap fun d =>
    argumentUses schema (((schema.directive? d.name).map (·.arguments)).getD inputs) d.arguments

/-- The declared arguments of a field. -/
def Schema.fieldInputs (schema : Schema) (parent? : Option NamedType) (name : String) :
    List InputField :=
  ((parent?.bind fun parent => schema.fieldDefinition? parent name).map (·.arguments)).getD []

mutual
/-- The variables in a selection made on `parent?`, inside a field with the declared arguments
`inputs`. -/
def Selection.uses (schema : Schema) (parent? : Option NamedType) (inputs : List InputField) :
    Selection → List VariableUse
  | .field _ name arguments directives none =>
    let own := schema.fieldInputs parent? name
    argumentUses schema own arguments ++ directiveUses schema own directives
  | .field _ name arguments directives (some selections) =>
    let own := schema.fieldInputs parent? name
    argumentUses schema own arguments ++ directiveUses schema own directives ++
      usesIn schema (schema.insideField? parent? name) own selections
  | .spread _ directives => directiveUses schema inputs directives
  | .inline condition? directives selections =>
    directiveUses schema inputs directives ++
      usesIn schema (schema.insideInline? parent? condition?) inputs selections
/-- The variables in selections. -/
def usesIn (schema : Schema) (parent? : Option NamedType) (inputs : List InputField) :
    List Selection → List VariableUse
  | [] => []
  | s :: ss => s.uses schema parent? inputs ++ usesIn schema parent? inputs ss
end

/-- The variables in an operation, apart from its own declarations. -/
def Operation.uses (o : Operation) (schema : Schema) : List VariableUse :=
  directiveUses schema [] o.directives ++
    usesIn schema (schema.operationType? o.kind) [] o.selections

/-- The variables in a fragment. -/
def Fragment.uses (f : Fragment) (schema : Schema) : List VariableUse :=
  directiveUses schema [] f.directives ++
    usesIn schema (schema.composite? f.condition) [] f.selections

/-- The variables whose places have known types, each with the type of the first such place. -/
def typedUses (uses : List VariableUse) : Keyed TypeRef :=
  uses.foldl
    (fun m use =>
      match use.type? with
      | some type => if Keyed.has m use.name then m else Keyed.put m use.name type
      | none => m)
    []

namespace Document

/-- The variables used in a fragment; the last definition of a name counts. -/
def fragmentUses (document : Document) (schema : Schema) (name : String) : List VariableUse :=
  match document.fragments.reverse.find? (·.name == name) with
  | some f => f.uses schema
  | none => []

/-- The operation that counts for a name: the last one of that name. -/
def lastOperation (document : Document) (o : Operation) : Operation :=
  (document.operations.reverse.find? (·.name? == o.name?)).getD o

/-- The variables used in an operation and in the fragments within its reach. -/
def operationUses (document : Document) (schema : Schema) (o : Operation) : List VariableUse :=
  let o := document.lastOperation o
  o.uses schema ++ (document.reachable (spreadNamesIn o.selections)).flatMap
    (document.fragmentUses schema)

/-- The definitions of the variables that an operation uses and does not declare. -/
def missingVariables (document : Document) (schema : Schema) (o : Operation) :
    List VariableDefinition :=
  (typedUses (document.operationUses schema o)).filterMap fun (name, type) =>
    if o.variableDefinitions.any (·.name == name) then none else some { name, type }

/-- The warnings about variables at places of unknown type. -/
def variableWarnings (document : Document) (schema : Schema) : List Warning :=
  (document.flatMap fun
    | .operation o => o.uses schema
    | .fragment f => f.uses schema
    | _ => []).filterMap fun use =>
      if use.type?.isNone then some (.untypedVariable use.name) else none

/-- The document with all used variables declared. -/
def declareVariables (document : Document) (schema : Schema) : Report Document :=
  ⟨document.variableWarnings schema, .ok (document.map fun
    | .operation o =>
      .operation { o with
        variableDefinitions := o.variableDefinitions ++ document.missingVariables schema o }
    | definition => definition)⟩

end Document

end RemoteNodes
