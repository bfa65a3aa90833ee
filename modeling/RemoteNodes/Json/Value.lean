import RemoteNodes.Decimal.Double
import RemoteNodes.Keyed
/-!
JSON values. Objects keep the order of their keys, integers are unbounded, and a number written
with a point or an exponent is a double.

* `Json.isTruthy`: the values that count as present: not null, not false, not zero and not empty.
* `Json.field?`, `Json.fieldOrNull`: reading a key.
-/

namespace RemoteNodes

/-- A JSON value. -/
inductive Json where
  | null
  | bool (value : Bool)
  | int (value : Int)
  | real (value : Double)
  | str (value : String)
  | arr (items : List Json)
  | obj (fields : List (String × Json))
  deriving Repr, Inhabited

namespace Json

/-- Null, false, zero and everything empty count as absent. -/
def isTruthy : Json → Bool
  | null => false
  | bool value => value
  | int value => value != 0
  | real value => !value.isZero
  | str value => value != ""
  | arr items => !items.isEmpty
  | obj fields => !fields.isEmpty

/-- Whether a value is null. -/
def isNull : Json → Bool
  | null => true
  | _ => false

/-- The value of a key, if the value is an object that has it. -/
def field? (key : String) : Json → Option Json
  | obj fields => Keyed.get? fields key
  | _ => none

/-- The value of a key of an object, null when it is absent. Only objects have keys. -/
def fieldOrNull (key : String) : Json → Option Json
  | obj fields => some ((Keyed.get? fields key).getD null)
  | _ => none

/-- The text that a string value holds. -/
def str? : Json → Option String
  | str value => some value
  | _ => none

/-- What going through a value one by one gives: the items of a list, the keys of an object, the
characters of a string. -/
def elements? : Json → Option (List Json)
  | str value => some (value.toList.map fun c => str (String.singleton c))
  | arr items => some items
  | obj fields => some (fields.map fun p => str p.1)
  | _ => none

end Json

end RemoteNodes
