import RemoteNodes.Decimal.Shortest
import RemoteNodes.Json.Value
import RemoteNodes.Text.Quoted
/-!
The written forms of JSON values.

* `Json.compact`: no blanks, keys sorted, all but ASCII escaped.
* `Json.spaced`: a blank after commas and colons, keys in their own order, all but ASCII escaped.
* `Json.display`: the form that stands in messages and ids: `None`, `True` and `False` for null
  and the booleans, texts in quotes except at the top.
-/

namespace RemoteNodes.Json

open Text

/-- Numbers are positional from `1e-4` up to `1e16` and whole ones keep a `.0`. -/
def numberFormat : PointFormat := ⟨16, -4, ".0", "Infinity", "NaN"⟩

/-- The number format of messages and ids. -/
def displayNumberFormat : PointFormat := { numberFormat with infinity := "inf", nan := "nan" }

/-- One unit of sixteen bits as an escape. -/
def escapeUnit (n : Nat) : List Char := '\\' :: 'u' :: hexDigits 4 n

/-- A character inside a JSON string, in ASCII. Beyond sixteen bits it takes a surrogate pair. -/
def escapeChar (c : Char) : List Char :=
  if c = '"' then ['\\', '"']
  else if c = '\\' then ['\\', '\\']
  else if c = '\n' then ['\\', 'n']
  else if c = '\r' then ['\\', 'r']
  else if c = '\t' then ['\\', 't']
  else if c = '\x08' then ['\\', 'b']
  else if c = '\x0c' then ['\\', 'f']
  else if 32 ≤ c.toNat && c.toNat < 127 then [c]
  else if c.toNat < 0x10000 then escapeUnit c.toNat
  else
    let n := c.toNat - 0x10000
    escapeUnit (0xD800 + n / 0x400) ++ escapeUnit (0xDC00 + n % 0x400)

/-- A JSON string literal. -/
def stringLiteral (s : String) : String :=
  String.ofList ('"' :: s.toList.flatMap escapeChar ++ ['"'])

/-- How the parts of a JSON text are set. -/
structure Layout where
  comma : String
  colon : String
  sortKeys : Bool

/-- Fields in the order of their keys by code points, the keys being pairwise distinct. -/
def sortFields (fields : List (String × String)) : List (String × String) :=
  fields.mergeSort fun a b => decide (a.1 ≤ b.1)

mutual
/-- A value in a layout. -/
def render (layout : Layout) : Json → String
  | null => "null"
  | bool true => "true"
  | bool false => "false"
  | int value => toString value
  | real value => value.text numberFormat
  | str value => stringLiteral value
  | arr items => "[" ++ layout.comma.intercalate (renderItems layout items) ++ "]"
  | obj fields =>
    let rendered := renderFields layout fields
    let ordered := if layout.sortKeys then sortFields rendered else rendered
    "\x7b" ++ layout.comma.intercalate (ordered.map fun p =>
      stringLiteral p.1 ++ layout.colon ++ p.2) ++ "\x7d"
/-- The texts of items. -/
def renderItems (layout : Layout) : List Json → List String
  | [] => []
  | x :: xs => render layout x :: renderItems layout xs
/-- The keys of fields with the texts of their values. -/
def renderFields (layout : Layout) : List (String × Json) → List (String × String)
  | [] => []
  | (k, x) :: xs => (k, render layout x) :: renderFields layout xs
end

/-- The shortest form, keys sorted. -/
def compact (value : Json) : String := render ⟨",", ":", true⟩ value

/-- The form of a line of records. -/
def spaced (value : Json) : String := render ⟨", ", ": ", false⟩ value

mutual
/-- A value as it stands inside a displayed list or object. -/
def displayInner : Json → String
  | null => "None"
  | bool true => "True"
  | bool false => "False"
  | int value => toString value
  | real value => value.text displayNumberFormat
  | str value => quoted value
  | arr items => "[" ++ ", ".intercalate (displayItems items) ++ "]"
  | obj fields => "\x7b" ++ ", ".intercalate (displayFields fields) ++ "\x7d"
/-- The texts of displayed items. -/
def displayItems : List Json → List String
  | [] => []
  | x :: xs => displayInner x :: displayItems xs
/-- The texts of displayed fields. -/
def displayFields : List (String × Json) → List String
  | [] => []
  | (k, x) :: xs => (quoted k ++ ": " ++ displayInner x) :: displayFields xs
end

/-- A value in a message or an id: a string is itself. -/
def display : Json → String
  | str value => value
  | value => displayInner value

end RemoteNodes.Json
