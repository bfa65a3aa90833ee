import RemoteNodes.Schema.Assembly
import RemoteNodes.Schema.Validity
/-!
Schemas that documents declare.

* `TypePlan.ofDefinition`: the plan of a declared type.
* `Schema.ofDocument`: the schema of a document. Additions are merged into what they add to;
  without a `schema` definition the root types are those named Query, Mutation and Subscription.

Names of types of the language stand for these types, whatever a document declares under them.
-/

namespace RemoteNodes

/-! ### Parts of types -/

namespace Directive

/-- The value of an argument. -/
def argument? (d : Directive) (name : String) : Option Literal :=
  (d.arguments.find? (·.name == name)).map (·.value)

end Directive

/-- The reason of a deprecation is a text or null. -/
def checkDeprecation (directives : List Directive) : Except Fault Unit :=
  match (directives.find? (·.name == "deprecated")).bind (·.argument? "reason") with
  | none | some .null | some (.string ..) => .ok ()
  | some _ => .error .unfitArgument

/-- The specification of a scalar type is given by a text. -/
def checkSpecification (directives : List Directive) : Except Fault Unit :=
  match directives.find? (·.name == "specifiedBy") with
  | none => .ok ()
  | some d =>
    match d.argument? "url" with
    | some (.string ..) => .ok ()
    | _ => .error .unfitArgument

/-- A declared argument or field of an input object. -/
def InputDefinition.field (scope : TypeScope) (d : InputDefinition) : Except Fault InputField := do
  let default ← match d.default? with
    | some value => scope.coerce value d.type
    | none => pure .unfit
  checkDeprecation d.directives
  if !scope.isInput d.type then throw .invalidSchema
  return ⟨d.name, d.type, default⟩

/-- A declared field of an object or interface type. -/
def FieldDefinition.field (scope : TypeScope) (d : FieldDefinition) : Except Fault OutputField := do
  let arguments ← d.arguments.mapM (·.field scope)
  checkDeprecation d.directives
  if !scope.isOutput d.type then throw .invalidSchema
  return ⟨d.name, d.type, arguments⟩

/-! ### Types -/

namespace TypeBody

/-- A body with what an addition to it says. -/
def extend : TypeBody → TypeBody → TypeBody
  | .object is fs, .object is' fs' => .object (is ++ is') (fs ++ fs')
  | .interface is fs, .interface is' fs' => .interface (is ++ is') (fs ++ fs')
  | .union ms, .union ms' => .union (ms ++ ms')
  | .enum vs, .enum vs' => .enum (vs ++ vs')
  | .input fs, .input fs' => .input (fs ++ fs')
  | body, _ => body

/-- What is known of a type before its parts are, by its body and directives. -/
def outline (body : TypeBody) (directives : List Directive) : TypeOutline :=
  match body with
  | .scalar => .scalar
  | .object .. => .object
  | .interface .. => .interface
  | .union _ => .union
  | .enum values => .enum (values.map (·.name))
  | .input _ => .input (directives.any (·.name == "oneOf"))

/-- The interfaces of a type, all of which have to be interfaces. -/
def checkInterfaces (scope : TypeScope) (names : List String) : Except Fault Unit :=
  if names.all fun name => scope.outline? name == some .interface then .ok ()
  else .error .invalidSchema

/-- What a type is by its body. -/
def shape (scope : TypeScope) : TypeBody → Except Fault TypeShape
  | .scalar => .ok .scalar
  | .object interfaces fields => do
    checkInterfaces scope interfaces
    return .object interfaces (← fields.mapM (·.field scope))
  | .interface interfaces fields => do
    checkInterfaces scope interfaces
    return .interface interfaces (← fields.mapM (·.field scope))
  | .union members =>
    if members.all fun name => scope.outline? name == some .object then .ok (.union members)
    else .error .invalidSchema
  | .enum values => .ok (.enum (values.map (·.name)))
  | .input fields => do return .input (← fields.mapM (·.field scope))

/-- What is checked of a type before anything is put together: the values of an enumeration. -/
def check : TypeBody → Except Fault Unit
  | .enum values => values.forM fun v => checkDeprecation v.directives
  | _ => .ok ()

end TypeBody

namespace TypePlan

/-- The plan of a declared type with its additions. -/
def ofDefinition (d : TypeDefinition) (additions : List TypeDefinition) :
    Except Fault TypePlan := do
  let body := (additions.map (·.body)).foldl TypeBody.extend d.body
  if d.body == .scalar then checkSpecification d.directives
  body.check
  return ⟨d.name, body.outline d.directives, body.shape⟩

/-- The plan of a type of introspection. -/
def ofMeta (d : TypeDefinition) : TypePlan := ⟨d.name, d.body.outline [], d.body.shape⟩

/-- The plan of a type of the language. -/
def reserved? (name : String) : Option TypePlan :=
  if Schema.builtinScalars.contains name then some (Schema.scalarPlan name)
  else (Schema.metaTypes.find? (·.name == name)).map ofMeta

end TypePlan

namespace Schema

/-- Plans together with those of introspection that are not among them. -/
def withMeta (plans : List TypePlan) : List TypePlan :=
  plans ++ (metaTypes.filter fun d => plans.all (·.name != d.name)).map TypePlan.ofMeta

/-- The plans of the types that a document declares. -/
def plans (document : Document) : Except Fault (List TypePlan) :=
  (document.typeDefinitions.filter (!·.isExtension)).mapM fun d =>
    match TypePlan.reserved? d.name with
    | some plan => .ok plan
    | none =>
      TypePlan.ofDefinition d
        (document.typeDefinitions.filter fun e => e.isExtension && e.name == d.name)

/-- The directives that a document declares and those of the language that it does not. -/
def directiveTypes (document : Document) (scope : TypeScope) :
    Except Fault (List DirectiveType) := do
  let definitions := document.directiveDefinitions
  let missing := builtinDirectives.filter fun b => definitions.all (·.name != b.name)
  (definitions ++ missing).mapM fun d => return ⟨d.name, ← d.arguments.mapM (·.field scope)⟩

/-- The root type of a kind: the last one that a `schema` definition names; without a definition
the type of the usual name goes first. -/
def rootOf? (document : Document) (kind : OperationKind) (usual : String) : Option String :=
  let schemas := document.schemaDefinitions
  let named? := ((schemas.flatMap (·.roots)).reverse.find? (·.1 == kind)).map (·.2)
  if schemas.any (!·.isExtension) then named?
  else if document.typeDefinitions.any fun d => !d.isExtension && d.name == usual then some usual
  else named?

/-- The schema that a document declares. -/
def ofDocument (document : Document) : Except Fault Schema := do
  if !document.isValid then throw .invalidSchema
  assemble (withMeta (← plans document)) (directiveTypes document)
    (rootOf? document .query "Query") (rootOf? document .mutation "Mutation")
    (rootOf? document .subscription "Subscription")

end Schema

end RemoteNodes
