import RemoteNodes.GraphQL.Document
/-!
Schemas: named types, the fields that they have and how they relate.

* `Schema.type?`, `NamedType.fields`: what a name or a field stands for.
* `Schema.possibleTypes`: the object types behind an abstract type.
* `Schema.isSubType`: whether a type lies under an abstract one.
* `Schema.fieldDefinition?`: the field that a selection on a type means, meta fields included.
* `mem_of_type?`, `name_of_type?`, `composite?_eq_some`: the type of a name.
* `possibleTypes_isObject`: possible types of an interface are object types that list it.
-/

namespace RemoteNodes

/-- What a constant amounts to as a value of an input type. -/
inductive Coerced where
  | unfit
  | null
  | value
  deriving Repr, DecidableEq, Inhabited

/-- An argument, or a field of an input object. -/
structure InputField where
  name : String
  type : TypeRef
  /-- What the declared default amounts to; one that does not fit counts as none. -/
  default : Coerced := .unfit
  deriving Repr, DecidableEq, Inhabited

namespace InputField

/-- Whether a default is declared that fits the type. -/
def hasDefault (input : InputField) : Bool := input.default != .unfit

/-- A required input must be given. -/
def isRequired (input : InputField) : Bool := input.type.isNonNull && !input.hasDefault

end InputField

/-- A field of an object or interface type. -/
structure OutputField where
  name : String
  type : TypeRef
  arguments : List InputField := []
  deriving Repr, DecidableEq, Inhabited

/-- What a named type is, with its parts. -/
inductive TypeShape where
  | scalar
  | object (interfaces : List String) (fields : List OutputField)
  | interface (interfaces : List String) (fields : List OutputField)
  | union (members : List String)
  | enum (values : List String)
  | input (fields : List InputField)
  deriving Repr, DecidableEq, Inhabited

namespace TypeShape

/-- The fields of an input object. -/
def inputs : TypeShape → List InputField
  | input fields => fields
  | _ => []

/-- The named types that the parts of a type mention. -/
def mentioned : TypeShape → List String
  | object _ fields => fields.flatMap outputs
  | interface _ fields => fields.flatMap outputs
  | input fields => fields.map (·.type.namedType)
  | _ => []
where
  /-- The types of a field and of its arguments. -/
  outputs (f : OutputField) : List String :=
    f.type.namedType :: f.arguments.map (·.type.namedType)

end TypeShape

/-- A type with its name. -/
structure NamedType where
  name : String
  shape : TypeShape
  deriving Repr, DecidableEq, Inhabited

/-- A directive that the schema knows. -/
structure DirectiveType where
  name : String
  arguments : List InputField
  deriving Repr, DecidableEq, Inhabited

/-- A schema: its types in the order of their definition, its directives and its root types. -/
structure Schema where
  types : List NamedType
  directives : List DirectiveType
  query? : Option String := none
  mutation? : Option String := none
  subscription? : Option String := none
  deriving Repr, DecidableEq, Inhabited

namespace NamedType

/-- Whether a type is an object type. -/
def isObject (t : NamedType) : Bool :=
  match t.shape with
  | .object .. => true
  | _ => false

/-- Whether a type is a union. -/
def isUnion (t : NamedType) : Bool :=
  match t.shape with
  | .union _ => true
  | _ => false

/-- Interfaces and unions stand for several object types. -/
def isAbstract (t : NamedType) : Bool :=
  match t.shape with
  | .interface .. => true
  | .union _ => true
  | _ => false

/-- Types that selections can be made on. -/
def isComposite (t : NamedType) : Bool := t.isObject || t.isAbstract

/-- Types that a field can return. -/
def isOutput (t : NamedType) : Bool :=
  match t.shape with
  | .input _ => false
  | _ => true

/-- The interfaces that a type is declared to implement. -/
def interfaces (t : NamedType) : List String :=
  match t.shape with
  | .object interfaces _ => interfaces
  | .interface interfaces _ => interfaces
  | _ => []

/-- The fields of an object or interface type. -/
def fields (t : NamedType) : List OutputField :=
  match t.shape with
  | .object _ fields => fields
  | .interface _ fields => fields
  | _ => []

/-- The field of a name, on an object or interface type. -/
def field? (t : NamedType) (name : String) : Option OutputField :=
  t.fields.find? (·.name == name)

/-- The type behind a field name, for every kind of type that has fields at all. -/
def memberType? (t : NamedType) (name : String) : Option TypeRef :=
  match t.shape with
  | .object _ fields => (fields.find? (·.name == name)).map (·.type)
  | .interface _ fields => (fields.find? (·.name == name)).map (·.type)
  | .input fields => (fields.find? (·.name == name)).map (·.type)
  | _ => none

end NamedType

/-- Names that begin with two underscores belong to introspection. -/
def isMetaName (name : String) : Bool := name.startsWith "__"

namespace Schema

/-- The type of a name. -/
def type? (schema : Schema) (name : String) : Option NamedType :=
  schema.types.find? (·.name == name)

/-- The type inside the wrappers of a reference. -/
def namedType? (schema : Schema) (type : TypeRef) : Option NamedType := schema.type? type.namedType

/-- The composite type of a name. -/
def composite? (schema : Schema) (name : String) : Option NamedType :=
  (schema.type? name).filter (·.isComposite)

/-- The object types that a value of the type can have: the members of a union, the object types
that list an interface, as often as they list it. -/
def possibleTypes (schema : Schema) (t : NamedType) : List NamedType :=
  match t.shape with
  | .union members => members.filterMap schema.type?
  | .interface .. =>
    schema.types.flatMap fun o =>
      if o.isObject then List.replicate (o.interfaces.count t.name) o else []
  | _ => []

/-- Whether the type of a name lies under an abstract type: a member of a union, an object type or
interface that lists an interface. -/
def isSubType (schema : Schema) (t : NamedType) (name : String) : Bool :=
  match t.shape with
  | .union members => members.contains name
  | .interface .. =>
    schema.types.any fun o => o.isComposite && o.name == name && o.interfaces.contains t.name
  | _ => false

/-- The directive of a name. -/
def directive? (schema : Schema) (name : String) : Option DirectiveType :=
  schema.directives.find? (·.name == name)

/-- The root type of an operation. -/
def root? (schema : Schema) : OperationKind → Option String
  | .query => schema.query?
  | .mutation => schema.mutation?
  | .subscription => schema.subscription?

/-- The field of a name on a type. All composite types have `__typename`, the query type also has
`__schema` and `__type`. -/
def fieldDefinition? (schema : Schema) (parent : NamedType) (name : String) : Option OutputField :=
  if name == "__schema" && schema.query? == some parent.name then
    some ⟨"__schema", .nonNull (.named "__Schema"), []⟩
  else if name == "__type" && schema.query? == some parent.name then
    some ⟨"__type", .named "__Type", [⟨"name", .nonNull (.named "String"), .unfit⟩]⟩
  else if name == "__typename" && parent.isComposite then
    some ⟨"__typename", .nonNull (.named "String"), []⟩
  else parent.field? name

theorem mem_of_type? {schema : Schema} {t : NamedType} {name : String}
    (h : schema.type? name = some t) : t ∈ schema.types :=
  List.mem_of_find?_eq_some h

theorem name_of_type? {schema : Schema} {t : NamedType} {name : String}
    (h : schema.type? name = some t) : t.name = name :=
  beq_iff_eq.1 (List.find?_some (p := fun t : NamedType => t.name == name) h)

theorem composite?_eq_some {schema : Schema} {t : NamedType} {name : String} :
    schema.composite? name = some t ↔ schema.type? name = some t ∧ t.isComposite = true :=
  Option.filter_eq_some_iff

theorem possibleTypes_isObject {schema : Schema} {t o : NamedType} {is fs}
    (ht : t.shape = .interface is fs) (h : o ∈ schema.possibleTypes t) :
    o ∈ schema.types ∧ o.isObject = true ∧ t.name ∈ o.interfaces := by
  simp only [possibleTypes, ht, List.mem_flatMap] at h
  obtain ⟨p, hp, h⟩ := h
  split at h
  · next hobj =>
    obtain ⟨hcount, rfl⟩ := List.mem_replicate.1 h
    exact ⟨hp, hobj, List.count_pos_iff.1 (Nat.pos_of_ne_zero hcount)⟩
  · simp at h

end Schema

end RemoteNodes
