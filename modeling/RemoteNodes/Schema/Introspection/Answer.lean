import RemoteNodes.GraphQL.Parser
import RemoteNodes.Json.Shape
import RemoteNodes.Schema.Declaration
/-!
The answer to the question for a schema. Every part has to be there, and every type that is
mentioned has to be told.

* `Introspection.Told.ofJson`: what is read of a type before all types are known.
* `Introspection.shape`: what a type is, by what is told of it.
* `Introspection.read`: the schema in the data of an answer.
-/

namespace RemoteNodes

namespace Introspection

/-! ### Values -/

/-- The items of a list that has to be there. -/
def listAt (part : Json) (key : String) : Except Fault (List Json) := do
  match ← part.key key with
  | .null => throw .malformed
  | list => list.elements

/-- The value of a key that has to be there. -/
def valueAt (part : Json) (key : String) : Except Fault Json := do
  match Keyed.get? (← part.fields) key with
  | some value => return value
  | none => throw .malformed

/-- Whatever there is under these keys has to be text. -/
def checkTexts (part : Json) (keys : List String) : Except Fault Unit :=
  keys.forM fun key => do
    match ← part.key key with
    | .null | .str _ => return ()
    | _ => throw .malformed

/-- A name that a document can write. -/
def writable (name : String) : Except Fault String :=
  match name.toList with
  | [] => .error .unwritablePart
  | c :: cs =>
    if Token.isNameStart c && cs.all Token.isNamePart then .ok name
    else .error .unwritablePart

/-- The name that a value gives. -/
def nameIn : Json → Except Fault String
  | .str name => writable name
  | _ => .error .malformed

/-- Parts with the values that name them. No list or object can name a part. -/
def parts {α : Type} (read : Json → Except Fault α) (told : List Json) :
    Except Fault (List (Json × α)) :=
  told.mapM fun part => do
    let name ← valueAt part "name"
    let content ← read part
    match name with
    | .arr _ | .obj _ => throw .malformed
    | _ => return (name, content)

/-- Parts by name; of parts with one name the last counts. -/
def byName {α : Type} (parts : List (Json × α)) : Except Fault (Keyed α) := do
  let named ← parts.mapM fun (name, content) =>
    match name with
    | .str name => .ok (name, content)
    | _ => .error Fault.malformed
  let named := Keyed.ofPairs named
  let _ ← named.mapM fun p => writable p.1
  return named

/-! ### References to types -/

/-- What is known of the types that are told, by name. -/
abbrev Outlines := Keyed TypeOutline

/-- The named type that a reference names. -/
def namedType (outlines : Outlines) (reference : Json) : Except Fault String := do
  match ← reference.key "name" with
  | .str name => if Keyed.has outlines name && name != "" then return name else throw .malformed
  | _ => throw .malformed

/-- The type that a reference names, which has to be of a kind. -/
def typeOfKind (outlines : Outlines) (kind : TypeOutline) (reference : Json) :
    Except Fault String := do
  match ← reference.key "kind" with
  | .str "LIST" | .str "NON_NULL" => throw .malformed
  | _ =>
    let name ← namedType outlines reference
    if Keyed.get? outlines name == some kind then return name else throw .malformed

mutual
/-- The type that a reference describes. -/
def typeRef (outlines : Outlines) : Json → Except Fault TypeRef
  | .obj fields => do
    match Keyed.get? fields "kind" with
    | some (.str "LIST") => return .list (← innerType outlines fields)
    | some (.str "NON_NULL") =>
      match ← innerType outlines fields with
      | .nonNull _ => throw .malformed
      | inner => return .nonNull inner
    | _ => return .named (← namedType outlines (.obj fields))
  | _ => .error .malformed
/-- The type inside a wrapper. -/
def innerType (outlines : Outlines) : List (String × Json) → Except Fault TypeRef
  | [] => .error .malformed
  | (key, value) :: fields =>
    if key = "ofType" then typeRef outlines value else innerType outlines fields
end

/-- The type of a part, of which `fits` has to hold. -/
def typeOf (outlines : Outlines) (fits : TypeOutline → Bool) (part : Json) :
    Except Fault TypeRef := do
  let type ← typeRef outlines (← valueAt part "type")
  if (Keyed.get? outlines type.namedType).any fits then return type else throw .malformed

/-! ### Fields -/

/-- The default of an argument or input field of a type. -/
def defaultOf (scope : TypeScope) (type : TypeRef) (part : Json) : Except Fault Coerced := do
  match ← part.key "defaultValue" with
  | .null => return .unfit
  | .str text =>
    match Literal.parse? text with
    | some value => scope.coerce value type
    | none => throw .unreadableGraph
  | _ => throw .malformed

/-- The type and the default of an argument or input field. -/
def input (outlines : Outlines) (scope : TypeScope) (part : Json) :
    Except Fault (TypeRef × Coerced) := do
  let type ← typeOf outlines TypeOutline.isInput part
  let default ← defaultOf scope type part
  checkTexts part ["description", "deprecationReason"]
  return (type, default)

/-- Arguments, or the fields of an input object. -/
def inputFields (named : Keyed (TypeRef × Coerced)) : List InputField :=
  named.map fun (name, type, default) => ⟨name, type, default⟩

/-- The type and the arguments of a field. -/
def output (outlines : Outlines) (scope : TypeScope) (part : Json) :
    Except Fault (TypeRef × List InputField) := do
  let type ← typeOf outlines TypeOutline.isOutput part
  let arguments ← parts (input outlines scope) (← listAt part "args")
  let arguments := inputFields (← byName arguments)
  checkTexts part ["description", "deprecationReason"]
  return (type, arguments)

/-- The fields of a type. A default among them that cannot be read is a fault of the type. -/
def fieldsOf {α : Type} (fields : Except Fault α) : Except Fault α :=
  fields.mapError fun
    | .unreadableGraph => .unwritablePart
    | fault => fault

/-- The fields of an object or interface type. -/
def outputFields (outlines : Outlines) (scope : TypeScope) (type : Json) :
    Except Fault (List OutputField) :=
  fieldsOf do
    let named ← byName (← parts (output outlines scope) (← listAt type "fields"))
    return named.map fun (name, type, arguments) => ⟨name, type, arguments⟩

/-- The interfaces of a type. Only interfaces may leave theirs out. -/
def interfaces (outlines : Outlines) (type : Json) (mayLack : Bool) :
    Except Fault (List String) := do
  match ← type.key "interfaces" with
  | .null => if mayLack then return [] else throw .malformed
  | list => (← list.elements).mapM (typeOfKind outlines .interface)

/-- What a type is, by its outline and what is told of it. -/
def shape (outlines : Outlines) (outline : TypeOutline) (type : Json) (scope : TypeScope) :
    Except Fault TypeShape := do
  match outline with
  | .scalar => return .scalar
  | .object =>
    let implemented ← interfaces outlines type false
    return .object implemented (← outputFields outlines scope type)
  | .interface =>
    let implemented ← interfaces outlines type true
    return .interface implemented (← outputFields outlines scope type)
  | .union => return .union (← (← listAt type "possibleTypes").mapM (typeOfKind outlines .object))
  | .enum values => return .enum values
  | .input _ =>
    fieldsOf do
      let named ← byName (← parts (input outlines scope) (← listAt type "inputFields"))
      return .input (inputFields named)

/-! ### Types -/

/-- A type as it is told: one of the language, or one of the schema's own. -/
inductive Told where
  | reserved (plan : TypePlan)
  | own (outline : TypeOutline) (type : Json)

namespace Told

/-- What is known of a type before its parts are. -/
def outline : Told → TypeOutline
  | reserved plan => plan.outline
  | own outline _ => outline

/-- The plan of a type among all that are told. -/
def plan (outlines : Outlines) (name : String) : Told → TypePlan
  | reserved plan => plan
  | own outline type => ⟨name, outline, shape outlines outline type⟩

/-- The name of a type of the schema's own. -/
def checkName (type : Json) : Except Fault Unit := do
  discard (nameIn (← valueAt type "name"))
  checkTexts type ["description"]

/-- The names of the values of an enumeration. Booleans and null cannot be values. -/
def enumValues (values : List (Json × Unit)) : Except Fault (List String) := do
  let names ← values.mapM fun (name, _) => do
    let name ← nameIn name
    if ["true", "false", "null"].contains name then throw Fault.unwritablePart
    return name
  return Keyed.keys (Keyed.ofPairs (names.map (·, ())))

/-- The values of an enumeration that is told, before their names are looked at. -/
def toldValues (type : Json) : Except Fault (List (Json × Unit)) := do
  parts (checkTexts · ["description", "deprecationReason"]) (← listAt type "enumValues")

/-- An own type by its kind, after a look at the parts that cannot wait. -/
def own? (kind : String) (type : Json) : Except Fault Told := do
  match kind with
  | "SCALAR" =>
    checkName type
    checkTexts type ["specifiedByURL"]
    return own .scalar type
  | "OBJECT" =>
    checkName type
    return own .object type
  | "INTERFACE" =>
    checkName type
    return own .interface type
  | "UNION" =>
    if (← type.key "possibleTypes").isNull then throw .malformed
    checkName type
    return own .union type
  | "ENUM" =>
    let values ← toldValues type
    checkName type
    return own (.enum (← enumValues values)) type
  | "INPUT_OBJECT" =>
    if (← type.key "inputFields").isNull then throw .malformed
    checkName type
    return own (.input (← type.key "isOneOf").isTruthy) type
  | _ => throw .malformed

/-- A type with its name. The name of a type of the language stands for that type, and only for one
of the kinds that such types have. -/
def ofJson (type : Json) : Except Fault (String × Told) := do
  let name ← valueAt type "name"
  let some kind := (← type.key "kind").str? | throw .malformed
  match name with
  | .str name =>
    match TypePlan.reserved? name with
    | none => return (name, ← own? kind type)
    | some plan =>
      if !(["SCALAR", "OBJECT", "ENUM"].contains kind) then throw .malformed
      if kind == "ENUM" && (← type.key "enumValues").isNull then throw .malformed
      return (name, reserved plan)
  | _ => throw .malformed

end Told

/-! ### Schemas -/

/-- A directive. -/
def directive (outlines : Outlines) (scope : TypeScope) (part : Json) :
    Except Fault DirectiveType := do
  let told ← listAt part "args"
  let locations ← listAt part "locations"
  let name ← valueAt part "name"
  let arguments ← parts (input outlines scope) told
  let name ← nameIn name
  if !locations.all fun l => l.str?.any directiveLocations.contains then throw .malformed
  let arguments ← byName arguments
  match part.field? "isRepeatable" with
  | none | some (.bool _) => checkTexts part ["description", "deprecationReason"]
  | some _ => throw .malformed
  return ⟨name, inputFields arguments⟩

/-- The directives of a schema. A schema may be described by a text. -/
def directives (outlines : Outlines) (schema : Json) (scope : TypeScope) :
    Except Fault (List DirectiveType) := do
  let told ← ((← schema.key "directives").or (.arr [])).elements
  let directives ← told.mapM (directive outlines scope)
  checkTexts schema ["description"]
  return directives

/-- A root type, if there is one. -/
def root (outlines : Outlines) (schema : Json) (key : String) : Except Fault (Option String) := do
  match ← schema.key key with
  | .null => return none
  | reference => return some (← typeOfKind outlines .object reference)

/-- The schema in the data of an answer. -/
def read (data : Json) : Except Fault Schema := do
  let schema ← data.key "__schema"
  let told := Keyed.ofPairs (← (← listAt schema "types").mapM Told.ofJson)
  let outlines : Outlines := told.map fun (name, type) => (name, type.outline)
  let query? ← root outlines schema "queryType"
  let mutation? ← root outlines schema "mutationType"
  let subscription? ← root outlines schema "subscriptionType"
  let plans := told.map fun (name, type) => type.plan outlines name
  Schema.assemble (Schema.withMeta plans) (directives outlines schema) query? mutation?
    subscription?

/-- The data of an answer. Without data the first error of the server tells the fault. -/
def dataOf (response : Json) : Except Fault Json := do
  match ← response.key "data" with
  | .null =>
    let errors ← response.key "errors"
    if !errors.isTruthy then throw (.query (.str "Could not introspect remote schema") [])
    match errors with
    | .arr (first :: rest) => throw (.query (← first.key "message") (first :: rest))
    | _ => throw .malformed
  | data => return data

end Introspection

end RemoteNodes
