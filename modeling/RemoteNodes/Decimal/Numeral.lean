import RemoteNodes.Decimal.Double
import RemoteNodes.Text.Blank
import RemoteNodes.Text.Digit
/-!
Numbers written in text by people: white space around them is allowed, so are the decimal digits of
any script and single underscores between two digits.

* `Numeral.readInt?`: an optional sign and digits.
* `Numeral.readDouble?`: an optional sign, digits with an optional point, and an optional exponent.
-/

namespace RemoteNodes.Numeral

open Text

/-- The digits at the front of a text and the rest. An underscore is skipped between two digits;
`afterDigit` tells whether a digit stands just before. -/
def takeDigits (afterDigit : Bool) : List Char → List Nat × List Char
  | [] => ([], [])
  | c :: cs =>
    match digitValue? c with
    | some d =>
      let (ds, rest) := takeDigits true cs
      (d :: ds, rest)
    | none =>
      if afterDigit && c = '_' && (cs.head?.bind digitValue?).isSome then takeDigits false cs
      else ([], c :: cs)

/-- The number that digits write, the most significant first. -/
def ofDigits (ds : List Nat) : Nat :=
  ds.foldl (fun n d => 10 * n + d) 0

/-- A sign at the front (whether it is a minus) and the rest. -/
def takeSign : List Char → Bool × List Char
  | '-' :: cs => (true, cs)
  | '+' :: cs => (false, cs)
  | cs => (false, cs)

/-- The integer that a text writes. -/
def readInt? (s : String) : Option Int :=
  let (negative, cs) := takeSign (trim isSpace s.toList)
  match takeDigits false cs with
  | ([], _) => none
  | (ds, []) => some (if negative then -(ofDigits ds : Int) else ofDigits ds)
  | _ => none

/-- The exponent part at the front of a text: zero when there is none. -/
def readExponent? (cs : List Char) : Option Int :=
  match cs with
  | [] => some 0
  | c :: cs =>
    if c = 'e' || c = 'E' then
      let (negative, cs) := takeSign cs
      match takeDigits false cs with
      | ([], _) => none
      | (ds, []) => some (if negative then -(ofDigits ds : Int) else ofDigits ds)
      | _ => none
    else none

/-- The finite number that a text writes, rounded to a double. -/
def readDouble? (s : String) : Option Double :=
  let (negative, cs) := takeSign (trim isSpace s.toList)
  let (whole, rest) := takeDigits false cs
  let (fraction, rest) :=
    match rest with
    | '.' :: rest => takeDigits false rest
    | _ => ([], rest)
  if whole.isEmpty && fraction.isEmpty then none
  else
    match readExponent? rest with
    | none => none
    | some e =>
      let value := Double.ofDecimal negative (ofDigits (whole ++ fraction)) (e - fraction.length)
      if value.isFinite then some value else none

end RemoteNodes.Numeral
