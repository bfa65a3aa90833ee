import RemoteNodes.Decimal.Numeral
import RemoteNodes.Decimal.Shortest
import RemoteNodes.Fault
import RemoteNodes.Schema.Assembly
/-!
Literals for argument values. A JSON value becomes a literal of an input type, or nothing where
the type has no literal for it, or the value does not fit.

* `Literal.ofJson`: the literal of a value at a type.
* `ofJson_null`: null is no literal of a non-null type.
-/

namespace RemoteNodes

namespace Literal

/-- A number without a mark for whole numbers. -/
def floatFormat : PointFormat := ⟨16, -4, "", "inf", "nan"⟩

/-- The literal of a finite number. -/
def ofDouble (x : Double) : Literal := .float (x.text floatFormat)

/-- The text of a number or a boolean as a string. -/
def scalarText? : Json → Option String
  | .str value => some value
  | .bool true => some "true"
  | .bool false => some "false"
  | .int n => some (toString n)
  | .real x => if x.isFinite then some (x.text ⟨16, -4, ".0", "inf", "nan"⟩) else none
  | _ => none

/-- The 32-bit integer that a value stands for. -/
def intOf? (value : Json) : Option Int :=
  let n? := match value with
    | .bool b => some (if b then 1 else 0)
    | .int n => some n
    | .real x => x.toInt?
    | .str s => Numeral.readInt? s
    | _ => none
  n?.filter fun n => -2147483648 ≤ n && n ≤ 2147483647

/-- The literal of a number of type Float. -/
def floatOf? : Json → Option Literal
  | .bool b => some (.int (if b then "1" else "0"))
  | .int n => let x := Double.ofInt n; if x.isFinite then some (ofDouble x) else none
  | .real x => if x.isFinite then some (ofDouble x) else none
  | .str s => (Numeral.readDouble? s).map ofDouble
  | _ => none

/-- Whether a text is an integer without needless zeros. A line feed may follow it. -/
def isIntegerText (s : String) : Bool :=
  let cs := if s.toList.getLast? == some '\n' then s.toList.dropLast else s.toList
  let digits := match cs with
    | '-' :: ds => ds
    | ds => ds
  match digits with
  | [] => false
  | ['0'] => true
  | '0' :: _ => false
  | ds => ds.all Char.isDigit

/-- The literal of an identifier: a number where the text is an integer. -/
def idOf? (value : Json) : Option Literal :=
  let text? := match value with
    | .str s => some s
    | .int n => some (toString n)
    | .real x => x.toInt?.map toString
    | _ => none
  text?.map fun text => if isIntegerText text then .int text else .string text false

/-- The literal of a boolean; numbers count as true unless they are zero. -/
def booleanOf? : Json → Option Literal
  | .bool b => some (.boolean b)
  | .int n => some (.boolean (n != 0))
  | .real x => if x.isFinite then some (.boolean (!x.isZero)) else none
  | _ => none

/-- The literal of a value of a scalar that the schema defines itself; lists and objects have
none. -/
def customOf? : Json → Option Literal
  | .bool b => some (.boolean b)
  | .int n => some (.int (toString n))
  | .real x => if x.isFinite then some (ofDouble x) else none
  | .str s => some (.string s false)
  | _ => none

/-- A literal, or the fault that the value does not fit. -/
def orUnfit : Option Literal → Except Fault (Option Literal)
  | some value => .ok (some value)
  | none => .error .unfitArgument

/-- The literal of a value that is not null, at a scalar or enumeration type. -/
def ofLeaf (t : NamedType) (value : Json) : Except Fault (Option Literal) :=
  match t.shape with
  | .enum values =>
    match value with
    | .str s => if values.contains s then .ok (some (.enum s)) else .error .unfitArgument
    | _ => .error .unfitArgument
  | .scalar =>
    match t.name with
    | "Int" => orUnfit ((intOf? value).map fun n => .int (toString n))
    | "Float" => orUnfit (floatOf? value)
    | "String" => orUnfit ((scalarText? value).map (.string · false))
    | "Boolean" => orUnfit (booleanOf? value)
    | "ID" => orUnfit (idOf? value)
    | _ =>
      match customOf? value with
      | some literal => .ok (some literal)
      | none => .error .malformed
  | .input _ => .ok none
  | _ => .error .malformed

/-- The fields of an input type that got literals, in the order of the type. -/
def inTypeOrder (inputs : List InputField)
    (given : List (String × Except Fault (Option Literal))) :
    Except Fault (List (String × Literal)) :=
  match inputs with
  | [] => .ok []
  | i :: rest =>
    match given.find? (·.1 == i.name) with
    | none => inTypeOrder rest given
    | some (_, .error e) => .error e
    | some (_, .ok none) => inTypeOrder rest given
    | some (_, .ok (some value)) => (inTypeOrder rest given).map ((i.name, value) :: ·)

mutual
/-- The literal of a value at a type. A value that is no list counts as a list of one; of an
object only the fields of the type count. -/
def ofJson (schema : Schema) (type : TypeRef) : Json → Except Fault (Option Literal)
  | .null => .ok (if type.isNonNull then none else some .null)
  | .arr items =>
    match type.nullable with
    | .list item => (ofItems schema item items).map fun xs => some (.list xs)
    | _ =>
      match schema.namedType? type with
      | some t => ofLeaf t (.arr items)
      | none => .error .malformed
  | .obj fields =>
    match schema.namedType? type with
    | some t =>
      match t.shape with
      | .input inputs =>
        (inTypeOrder inputs (ofFields schema inputs fields)).map fun xs => some (.object xs)
      | _ => ofLeaf t (.obj fields)
    | none => .error .malformed
  | value =>
    match schema.namedType? type with
    | some t => ofLeaf t value
    | none => .error .malformed
/-- The literals of the items of a list; items without a literal are left out. -/
def ofItems (schema : Schema) (type : TypeRef) : List Json → Except Fault (List Literal)
  | [] => .ok []
  | x :: xs =>
    match ofJson schema type x with
    | .error e => .error e
    | .ok literal? => (ofItems schema type xs).map (literal?.toList ++ ·)
/-- The literals of the given fields that the type has. -/
def ofFields (schema : Schema) (inputs : List InputField) :
    List (String × Json) → List (String × Except Fault (Option Literal))
  | [] => []
  | (k, x) :: xs =>
    (match inputs.find? (·.name == k) with
      | some i => [(k, ofJson schema i.type x)]
      | none => []) ++ ofFields schema inputs xs
end

theorem ofJson_null (schema : Schema) (type : TypeRef) :
    ofJson schema type .null = .ok (if type.isNonNull then none else some .null) := by
  simp [ofJson]

end Literal

end RemoteNodes
