import RemoteNodes.GraphQL.Document
/-!
The parts of a schema that need no definition: the types of introspection, the directives of the
language and the scalar types of the language.
-/

namespace RemoteNodes.Schema

/-- The scalar types of the language. -/
def builtinScalars : List String := ["String", "Int", "Float", "Boolean", "ID"]

private def named (name : String) : TypeRef := .named name

private def required (name : String) : TypeRef := .nonNull (.named name)

/-- A list without nulls. -/
private def listOf (name : String) : TypeRef := .list (required name)

private def metaField (name : String) (type : TypeRef) : FieldDefinition := { name, type }

/-- A field that lists deprecated parts on demand. -/
private def metaList (name : String) (type : TypeRef) (flag : TypeRef := named "Boolean") :
    FieldDefinition :=
  { name, type,
    arguments := [
      { name := "includeDeprecated", type := flag, default? := some (.boolean false) }] }

private def metaObject (name : String) (fields : List FieldDefinition) : TypeDefinition :=
  { name, body := .object [] fields }

private def metaEnum (name : String) (values : List String) : TypeDefinition :=
  { name, body := .enum (values.map fun value => { name := value }) }

/-- The types of introspection. -/
def metaTypes : List TypeDefinition := [
  metaObject "__Schema" [
    metaField "description" (named "String"),
    metaField "types" (.nonNull (listOf "__Type")),
    metaField "queryType" (required "__Type"),
    metaField "mutationType" (named "__Type"),
    metaField "subscriptionType" (named "__Type"),
    metaList "directives" (.nonNull (listOf "__Directive")) (required "Boolean")],
  metaObject "__Directive" [
    metaField "name" (required "String"),
    metaField "description" (named "String"),
    metaField "isRepeatable" (required "Boolean"),
    metaField "locations" (.nonNull (listOf "__DirectiveLocation")),
    metaList "args" (.nonNull (listOf "__InputValue")),
    metaField "isDeprecated" (required "Boolean"),
    metaField "deprecationReason" (named "String")],
  metaEnum "__DirectiveLocation" directiveLocations,
  metaObject "__Type" [
    metaField "kind" (required "__TypeKind"),
    metaField "name" (named "String"),
    metaField "description" (named "String"),
    metaField "specifiedByURL" (named "String"),
    metaList "fields" (listOf "__Field"),
    metaField "interfaces" (listOf "__Type"),
    metaField "possibleTypes" (listOf "__Type"),
    metaList "enumValues" (listOf "__EnumValue"),
    metaList "inputFields" (listOf "__InputValue"),
    metaField "ofType" (named "__Type"),
    metaField "isOneOf" (named "Boolean")],
  metaObject "__Field" [
    metaField "name" (required "String"),
    metaField "description" (named "String"),
    metaList "args" (.nonNull (listOf "__InputValue")),
    metaField "type" (required "__Type"),
    metaField "isDeprecated" (required "Boolean"),
    metaField "deprecationReason" (named "String")],
  metaObject "__InputValue" [
    metaField "name" (required "String"),
    metaField "description" (named "String"),
    metaField "type" (required "__Type"),
    metaField "defaultValue" (named "String"),
    metaField "isDeprecated" (required "Boolean"),
    metaField "deprecationReason" (named "String")],
  metaObject "__EnumValue" [
    metaField "name" (required "String"),
    metaField "description" (named "String"),
    metaField "isDeprecated" (required "Boolean"),
    metaField "deprecationReason" (named "String")],
  metaEnum "__TypeKind" [
    "SCALAR", "OBJECT", "INTERFACE", "UNION", "ENUM", "INPUT_OBJECT", "LIST", "NON_NULL"]]

/-- The directives of the language. -/
def builtinDirectives : List DirectiveDefinition := [
  { name := "include", arguments := [{ name := "if", type := required "Boolean" }],
    locations := ["FIELD", "FRAGMENT_SPREAD", "INLINE_FRAGMENT"] },
  { name := "skip", arguments := [{ name := "if", type := required "Boolean" }],
    locations := ["FIELD", "FRAGMENT_SPREAD", "INLINE_FRAGMENT"] },
  { name := "deprecated",
    arguments := [
      { name := "reason", type := named "String",
        default? := some (.string "No longer supported" false) }],
    locations := ["FIELD_DEFINITION", "ARGUMENT_DEFINITION", "INPUT_FIELD_DEFINITION",
      "ENUM_VALUE"] },
  { name := "specifiedBy", arguments := [{ name := "url", type := required "String" }],
    locations := ["SCALAR"] },
  { name := "oneOf", locations := ["INPUT_OBJECT"] }]

/-- Whether a name belongs to a type of the language, which no definition can change. -/
def isReserved (name : String) : Bool :=
  builtinScalars.contains name || metaTypes.any (·.name == name)

end RemoteNodes.Schema
