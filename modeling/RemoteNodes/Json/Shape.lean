import RemoteNodes.Decimal.Numeral
import RemoteNodes.Fault
/-!
Values that have to be of a certain shape: a value of another shape is a fault.

* `Json.toInt`: an integer, also one written as a text.
* `Json.elements`: what going through a value gives.
* `Json.key`: a key of an object, null if it is absent.
-/

namespace RemoteNodes

/-- The integer that a value stands for. -/
def Json.toInt : Json → Except Fault Int
  | .bool value => .ok (if value then 1 else 0)
  | .int value => .ok value
  | .real value =>
    match value.truncate? with
    | some n => .ok n
    | none => .error .malformed
  | .str text =>
    match Numeral.readInt? text with
    | some n => .ok n
    | none => .error (.notAnInteger text)
  | _ => .error .malformed

/-- The value if it counts as present, else the other one. -/
def Json.or (value fallback : Json) : Json := if value.isTruthy then value else fallback

/-- What going through a value gives; only lists, objects and texts can be gone through. -/
def Json.elements (value : Json) : Except Fault (List Json) :=
  match value.elements? with
  | some items => .ok items
  | none => .error .malformed

/-- A key of an object, null if it is absent; only objects have keys. -/
def Json.key (value : Json) (name : String) : Except Fault Json :=
  match value.fieldOrNull name with
  | some item => .ok item
  | none => .error .malformed

/-- The fields of an object. -/
def Json.fields (value : Json) : Except Fault (List (String × Json)) :=
  match value with
  | .obj fields => .ok fields
  | _ => .error .malformed

end RemoteNodes
