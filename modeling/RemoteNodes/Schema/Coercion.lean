import RemoteNodes.Fault
import RemoteNodes.Keyed
import RemoteNodes.Schema.Basic
import RemoteNodes.Schema.Meta
/-!
Constants as values of input types, which decides whether a declared default counts.

* `TypeScope`: the types that are known while a schema is put together.
* `TypeScope.coerce`: what a constant amounts to as a value of a type. Types that no value can be
  given for are a fault.

A variable has no value. In a list it counts as null, as the field of an object it counts as not
given.
-/

namespace RemoteNodes

/-- What is known of a type before its parts are. -/
inductive TypeOutline where
  | scalar
  | object
  | interface
  | union
  | enum (values : List String)
  | input (isOneOf : Bool)
  deriving Repr, DecidableEq, Inhabited

namespace TypeOutline

/-- Types that an argument can take. -/
def isInput : TypeOutline → Bool
  | scalar | enum _ | input _ => true
  | _ => false

/-- Types that a field can return. -/
def isOutput : TypeOutline → Bool
  | input _ => false
  | _ => true

end TypeOutline

/-- The types that are known while a schema is put together. Finding the fields of an input object
can fail. -/
structure TypeScope where
  outlines : Keyed TypeOutline
  inputFields : String → Except Fault (List InputField)

namespace TypeScope

/-- What is known of the type of a name. The scalar types of the language are always known. -/
def outline? (scope : TypeScope) (name : String) : Option TypeOutline :=
  if Schema.builtinScalars.contains name then some .scalar else Keyed.get? scope.outlines name

/-- Whether an argument can take the type. -/
def isInput (scope : TypeScope) (type : TypeRef) : Bool :=
  (scope.outline? type.namedType).any (·.isInput)

/-- Whether a field can return the type. -/
def isOutput (scope : TypeScope) (type : TypeRef) : Bool :=
  (scope.outline? type.namedType).any (·.isOutput)

/-- Whether an integer text lies in the range of 32 bits. -/
def isInt32 (text : String) : Bool :=
  match text.toInt? with
  | some n => -2147483648 ≤ n && n ≤ 2147483647
  | none => false

/-- Whether a literal is a value of a scalar type; scalar types that the schema defines itself take
all of them. -/
def scalarFits (name : String) (value : Literal) : Bool :=
  match name, value with
  | "Int", .int text => isInt32 text
  | "Int", _ => false
  | "Float", .int _ => true
  | "Float", .float _ => true
  | "Float", _ => false
  | "String", .string .. => true
  | "String", _ => false
  | "Boolean", .boolean _ => true
  | "Boolean", _ => false
  | "ID", .string .. => true
  | "ID", .int _ => true
  | "ID", _ => false
  | _, _ => true

/-- What a literal other than null amounts to as a value of a named type without fields. -/
def coerceLeaf (scope : TypeScope) (value : Literal) (name : String) : Except Fault Coerced :=
  match scope.outline? name, value with
  | some .scalar, _ => .ok (if scalarFits name value then .value else .unfit)
  | some (.enum values), .enum text => .ok (if values.contains text then .value else .unfit)
  | some (.enum _), _ => .ok .unfit
  | some (.input _), _ => .ok .unfit
  | _, _ => .error .invalidSchema

/-- What becomes of the fields of an input object, in their order, by what is given for them;
nothing if one of them does not fit. Fields without a value are left out. -/
def coerceFields (given : Keyed (Option (TypeRef → Except Fault Coerced))) :
    List InputField → Except Fault (Option (List Coerced))
  | [] => .ok (some [])
  | field :: fields => do
    match (Keyed.get? given field.name).join with
    | some coerced =>
      match ← coerced field.type with
      | .unfit => return none
      | amount => return (← coerceFields given fields).map (amount :: ·)
    | none =>
      if field.hasDefault then return (← coerceFields given fields).map (field.default :: ·)
      else if field.type.isNonNull then return none
      else coerceFields given fields

/-- What an object with these fields amounts to; where one field has to be given, it is the only one
and not null. -/
def coerceObject (isOneOf : Bool) : Option (List Coerced) → Coerced
  | none => .unfit
  | some fields => if isOneOf && fields != [.value] then .unfit else .value

mutual
/-- What a constant amounts to as a value of a type. A value that is no list counts as a list of
one; fields that the type does not know are ignored. -/
def coerce (scope : TypeScope) : Literal → TypeRef → Except Fault Coerced
  | .null, type => .ok (if type.isNonNull then .unfit else .null)
  | .variable _, _ => .ok .unfit
  | .list items, type =>
    match type.nullable with
    | .list item => scope.coerceItems items item
    | _ => scope.coerceLeaf (.list []) type.namedType
  | .object fields, type =>
    match scope.outline? type.namedType with
    | some (.input isOneOf) => do
      let given := Keyed.ofPairs (scope.coerceGiven fields)
      return coerceObject isOneOf (← coerceFields given (← scope.inputFields type.namedType))
    | _ => scope.coerceLeaf (.object []) type.namedType
  | value, type => scope.coerceLeaf value type.namedType
/-- What a list of constants amounts to by the type of its items. -/
def coerceItems (scope : TypeScope) : List Literal → TypeRef → Except Fault Coerced
  | [], _ => .ok .value
  | .variable _ :: items, type =>
    if type.isNonNull then .ok .unfit else scope.coerceItems items type
  | item :: items, type => do
    match ← scope.coerce item type with
    | .unfit => return .unfit
    | _ => scope.coerceItems items type
/-- What the fields of an object amount to by their types, variables apart. -/
def coerceGiven (scope : TypeScope) :
    List (String × Literal) → List (String × Option (TypeRef → Except Fault Coerced))
  | [] => []
  | (name, .variable _) :: fields => (name, none) :: scope.coerceGiven fields
  | (name, value) :: fields => (name, some (scope.coerce value)) :: scope.coerceGiven fields
end

end TypeScope

end RemoteNodes
