/-!
GraphQL documents: literals, selections, operations, fragments and type definitions, as plain
values.

* `Selection.induct`: the induction principle over the selections inside a selection.
-/

namespace RemoteNodes

/-- A reference to a type. -/
inductive TypeRef where
  | named (name : String)
  | list (item : TypeRef)
  | nonNull (inner : TypeRef)
  deriving Repr, DecidableEq, Inhabited

namespace TypeRef

/-- The name inside all wrappers. -/
def namedType : TypeRef → String
  | named name => name
  | list item => item.namedType
  | nonNull inner => inner.namedType

/-- The type without a non-null mark around it. -/
def nullable : TypeRef → TypeRef
  | nonNull inner => inner
  | type => type

/-- Whether the type has a non-null mark around it. -/
def isNonNull : TypeRef → Bool
  | nonNull _ => true
  | _ => false

/-- The type as it is written. -/
def text : TypeRef → String
  | named name => name
  | list item => "[" ++ item.text ++ "]"
  | nonNull inner => inner.text ++ "!"

end TypeRef

/-- A literal value. Numbers keep the text that they were written with. -/
inductive Literal where
  | variable (name : String)
  | int (text : String)
  | float (text : String)
  | string (value : String) (isBlock : Bool)
  | boolean (value : Bool)
  | null
  | enum (name : String)
  | list (items : List Literal)
  | object (fields : List (String × Literal))
  deriving Repr, BEq, Inhabited

/-- An argument with its value. -/
structure Argument where
  name : String
  value : Literal
  deriving Repr, BEq, Inhabited

/-- A directive with its arguments. -/
structure Directive where
  name : String
  arguments : List Argument
  deriving Repr, BEq, Inhabited

/-- What a selection set asks for. A leaf field has no selection set at all, which is not the same
as an empty one. -/
inductive Selection where
  | field (alias? : Option String) (name : String) (arguments : List Argument)
      (directives : List Directive) (selections? : Option (List Selection))
  | spread (fragment : String) (directives : List Directive)
  | inline (condition? : Option String) (directives : List Directive)
      (selections : List Selection)
  deriving Repr, BEq, Inhabited

namespace Selection

/-- A field without alias, arguments and directives. -/
def plain (name : String) (selections? : Option (List Selection) := none) : Selection :=
  field none name [] [] selections?

/-- Whether a selection is a spread. -/
def isSpread : Selection → Bool
  | spread .. => true
  | _ => false

/-- Whether a selection is a field. -/
def isField : Selection → Bool
  | field .. => true
  | _ => false

/-- A `__typename` field under any alias. -/
def isTypename : Selection → Bool
  | field _ name .. => name == "__typename"
  | _ => false

/-- A `__typename` field that answers under its own name. -/
def isPlainTypename : Selection → Bool
  | field alias? name .. => name == "__typename" && (alias? == none || alias? == some "__typename")
  | _ => false

/-- The fragment that a spread names. -/
def spread? : Selection → Option String
  | spread fragment _ => some fragment
  | _ => none

/-- The key of a field's value in the response. -/
def responseKey (alias? : Option String) (name : String) : String := alias?.getD name

mutual
/-- The number of selections in a selection, itself included. -/
def size : Selection → Nat
  | field _ _ _ _ none => 1
  | field _ _ _ _ (some selections) => 1 + sizeAll selections
  | spread .. => 1
  | inline _ _ selections => 1 + sizeAll selections
/-- The number of selections in a list of them. -/
def sizeAll : List Selection → Nat
  | [] => 0
  | s :: ss => size s + sizeAll ss
end

theorem size_pos (s : Selection) : 0 < s.size := by
  cases s with
  | field _ _ _ _ selections? => cases selections? <;> simp only [size] <;> omega
  | spread => simp only [size]; omega
  | inline => simp only [size]; omega

theorem size_le_sizeAll {s : Selection} {ss : List Selection} (h : s ∈ ss) :
    s.size ≤ sizeAll ss := by
  induction ss with
  | nil => cases h
  | cons first rest ih =>
    rw [sizeAll]
    cases h with
    | head => omega
    | tail _ h => have := ih h; omega

/-- A property of every selection follows from its passing from the selections directly inside. -/
theorem induct {motive : Selection → Prop}
    (leaf : ∀ alias? name arguments directives,
      motive (field alias? name arguments directives none))
    (composite : ∀ alias? name arguments directives selections,
      (∀ s ∈ selections, motive s) →
        motive (field alias? name arguments directives (some selections)))
    (spread : ∀ fragment directives, motive (spread fragment directives))
    (inline : ∀ condition? directives selections,
      (∀ s ∈ selections, motive s) → motive (inline condition? directives selections))
    (s : Selection) : motive s :=
  s.rec (motive_2 := fun selections? => ∀ ss, selections? = some ss → ∀ s ∈ ss, motive s)
    (motive_3 := fun selections => ∀ s ∈ selections, motive s)
    (fun alias? name arguments directives selections? ih => by
      cases selections? with
      | none => exact leaf alias? name arguments directives
      | some ss => exact composite alias? name arguments directives ss (ih ss rfl))
    spread
    (fun condition? directives selections ih => inline condition? directives selections ih)
    (fun ss h => by cases h)
    (fun ss ih ss' h => by cases h; exact ih)
    (fun s h => by cases h)
    (fun s ss ihs ihss s' h => by
      cases h with
      | head => exact ihs
      | tail _ h => exact ihss s' h)

end Selection

/-- A description: its text and whether it was written as a block. -/
structure Description where
  value : String
  isBlock : Bool
  deriving Repr, BEq, Inhabited

/-- A declared variable of an operation. -/
structure VariableDefinition where
  description? : Option Description := none
  name : String
  type : TypeRef
  default? : Option Literal := none
  directives : List Directive := []
  deriving Repr, BEq, Inhabited

/-- The kinds of operations. -/
inductive OperationKind where
  | query
  | mutation
  | subscription
  deriving Repr, DecidableEq, Inhabited

/-- The keyword of an operation. -/
def OperationKind.text : OperationKind → String
  | query => "query"
  | mutation => "mutation"
  | subscription => "subscription"

/-- An operation. A name is not needed where it is the only one. -/
structure Operation where
  description? : Option Description := none
  kind : OperationKind
  name? : Option String
  variableDefinitions : List VariableDefinition
  directives : List Directive
  selections : List Selection
  deriving Repr, BEq, Inhabited

/-- A named fragment, made on the type that is its condition. -/
structure Fragment where
  description? : Option Description := none
  name : String
  condition : String
  directives : List Directive := []
  selections : List Selection
  deriving Repr, BEq, Inhabited

/-- An argument of a field or directive, or a field of an input object, as it is declared. -/
structure InputDefinition where
  description? : Option Description := none
  name : String
  type : TypeRef
  default? : Option Literal := none
  directives : List Directive := []
  deriving Repr, BEq, Inhabited

/-- A field of an object or interface type, as it is declared. -/
structure FieldDefinition where
  description? : Option Description := none
  name : String
  arguments : List InputDefinition := []
  type : TypeRef
  directives : List Directive := []
  deriving Repr, BEq, Inhabited

/-- A value of an enumeration, as it is declared. -/
structure EnumValueDefinition where
  description? : Option Description := none
  name : String
  directives : List Directive := []
  deriving Repr, BEq, Inhabited

/-- What a type definition says by the kind of type. -/
inductive TypeBody where
  | scalar
  | object (interfaces : List String) (fields : List FieldDefinition)
  | interface (interfaces : List String) (fields : List FieldDefinition)
  | union (members : List String)
  | enum (values : List EnumValueDefinition)
  | input (fields : List InputDefinition)
  deriving Repr, BEq, Inhabited

/-- A definition of a type, or an addition to one. -/
structure TypeDefinition where
  isExtension : Bool := false
  description? : Option Description := none
  name : String
  directives : List Directive := []
  body : TypeBody
  deriving Repr, BEq, Inhabited

/-- A definition of the root types, or an addition to it. -/
structure SchemaDefinition where
  isExtension : Bool
  description? : Option Description
  directives : List Directive
  roots : List (OperationKind × String)
  deriving Repr, BEq, Inhabited

/-- The places where a directive may stand. -/
def directiveLocations : List String := [
  "QUERY", "MUTATION", "SUBSCRIPTION", "FIELD", "FRAGMENT_DEFINITION", "FRAGMENT_SPREAD",
  "INLINE_FRAGMENT", "VARIABLE_DEFINITION", "SCHEMA", "SCALAR", "OBJECT", "FIELD_DEFINITION",
  "ARGUMENT_DEFINITION", "INTERFACE", "UNION", "ENUM", "ENUM_VALUE", "INPUT_OBJECT",
  "INPUT_FIELD_DEFINITION", "DIRECTIVE_DEFINITION"]

/-- A directive, as it is declared. -/
structure DirectiveDefinition where
  description? : Option Description := none
  name : String
  arguments : List InputDefinition := []
  isRepeatable : Bool := false
  locations : List String := []
  deriving Repr, BEq, Inhabited

/-- What a document consists of. -/
inductive Definition where
  | operation (operation : Operation)
  | fragment (fragment : Fragment)
  | schema (definition : SchemaDefinition)
  | type (definition : TypeDefinition)
  | directive (definition : DirectiveDefinition)
  deriving Repr, BEq, Inhabited

/-- A document is a list of definitions. -/
abbrev Document := List Definition

namespace Definition

/-- The fragment that is defined. -/
def fragment? : Definition → Option Fragment
  | fragment f => some f
  | _ => none

/-- The operation that is defined. -/
def operation? : Definition → Option Operation
  | operation o => some o
  | _ => none

/-- The definition of a type or an addition to one. -/
def type? : Definition → Option TypeDefinition
  | type d => some d
  | _ => none

/-- The definition of the root types or an addition to it. -/
def schema? : Definition → Option SchemaDefinition
  | schema d => some d
  | _ => none

/-- The directive that is defined. -/
def directive? : Definition → Option DirectiveDefinition
  | directive d => some d
  | _ => none

end Definition

namespace Document

/-- The fragment definitions in order. -/
def fragments (document : Document) : List Fragment := document.filterMap Definition.fragment?

/-- The operations in order. -/
def operations (document : Document) : List Operation := document.filterMap Definition.operation?

/-- The definitions of types and the additions to them in order. -/
def typeDefinitions (document : Document) : List TypeDefinition :=
  document.filterMap Definition.type?

/-- The definitions of root types in order. -/
def schemaDefinitions (document : Document) : List SchemaDefinition :=
  document.filterMap Definition.schema?

/-- The definitions of directives in order. -/
def directiveDefinitions (document : Document) : List DirectiveDefinition :=
  document.filterMap Definition.directive?

end Document

end RemoteNodes
