import RemoteNodes.Json.Printer
/-!
The variables of a request, as a program gives them: JSON values, and records of types of the
program, alone or in lists.

* `Variable.sent`: the value that goes out for a variable.
* `Variable.display`: a variable as it stands in messages.
-/

namespace RemoteNodes

/-- A variable of a request. Each field of a record has a name and a name under which it is sent. -/
inductive Variable where
  | plain (value : Json)
  | record (type : String) (fields : List (String × String × Variable))
  | list (items : List Variable)
  deriving Repr, Inhabited

namespace Variable

mutual
/-- The value that goes out for a variable. Of a record, fields without a value are left out. -/
def sent : Variable → Json
  | plain value => value
  | record _ fields => .obj (sentFields fields)
  | list items => .arr (sentItems items)
/-- The fields of a record that have a value, as they are sent. -/
def sentFields : List (String × String × Variable) → List (String × Json)
  | [] => []
  | (_, key, x) :: fields =>
    let value := sent x
    if value.isNull then sentFields fields else (key, value) :: sentFields fields
/-- The values that go out for items. -/
def sentItems : List Variable → List Json
  | [] => []
  | x :: items => sent x :: sentItems items
end

mutual
/-- A variable as it stands in messages: a record as its type with its fields in parentheses. -/
def display : Variable → String
  | plain value => value.displayInner
  | record type fields => type ++ "(" ++ ", ".intercalate (displayFields fields) ++ ")"
  | list items => "[" ++ ", ".intercalate (displayItems items) ++ "]"
/-- The texts of the fields of a record. -/
def displayFields : List (String × String × Variable) → List String
  | [] => []
  | (name, _, x) :: fields => (name ++ "=" ++ display x) :: displayFields fields
/-- The texts of items. -/
def displayItems : List Variable → List String
  | [] => []
  | x :: items => display x :: displayItems items
end

end Variable

/-- Variables as they go out. -/
def sentBindings (bindings : Keyed Variable) : Keyed Json :=
  bindings.map fun p => (p.1, p.2.sent)

/-- Variables as they stand in messages. -/
def displayBindings (bindings : Keyed Variable) : String :=
  "\x7b" ++ ", ".intercalate (bindings.map fun p => Text.quoted p.1 ++ ": " ++ p.2.display) ++
    "\x7d"

end RemoteNodes
