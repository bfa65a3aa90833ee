/-!
Binary floating-point numbers of double width: exact values, without any machine arithmetic.

* `Double.ofQuotient`: the double nearest to a quotient of naturals, ties to the even significand.
* `Double.ofDecimal`: the double nearest to a decimal numeral.
* `Double.truncate?`: the integer part.
-/

namespace RemoteNodes

/-- A double. A finite one is `significand * 2 ^ exponent` with its sign; its significand is below
`2 ^ 53` and at least `2 ^ 52` unless the exponent is `-1074`, the least there is. -/
inductive Double where
  | finite (negative : Bool) (significand : Nat) (exponent : Int)
  | infinite (negative : Bool)
  | nan
  deriving Repr, DecidableEq, Inhabited

namespace Double

/-- Zero, with its sign. -/
def zero (negative : Bool) : Double := .finite negative 0 (-1074)

/-- The natural number nearest to `n / d`, a half going to the even neighbour. -/
def roundDiv (n d : Nat) : Nat :=
  let q := n / d
  let r := n % d
  if d < 2 * r || (2 * r == d && q % 2 == 1) then q + 1 else q

/-- `n / d / 2 ^ e` as a quotient of naturals. -/
def scaled (n d : Nat) (e : Int) : Nat × Nat :=
  if e < 0 then (n * Nat.pow 2 e.natAbs, d) else (n, d * Nat.pow 2 e.natAbs)

/-- The exponent that gives `n / d` a significand of 53 bits, or the least one. -/
def exponentOf (n d : Nat) : Int :=
  let e : Int := (n.log2 : Int) - d.log2 - 52
  let (a, b) := scaled n d e
  max (-1074) (if a / b < Nat.pow 2 52 then e - 1 else e)

/-- The double nearest to `n / d`. -/
def ofQuotient (negative : Bool) (n d : Nat) : Double :=
  if n == 0 then zero negative
  else
    let e := exponentOf n d
    let (a, b) := scaled n d e
    let s := roundDiv a b
    let (s, e) := if s == Nat.pow 2 53 then (Nat.pow 2 52, e + 1) else (s, e)
    if 971 < e then .infinite negative else .finite negative s e

/-- The number of decimal digits of a natural number. -/
def decimalLength (n : Nat) : Nat := (Nat.toDigits 10 n).length

/-- The double nearest to `digits * 10 ^ exponent`. Numerals far outside the range of doubles are
settled by their order of magnitude. -/
def ofDecimal (negative : Bool) (digits : Nat) (exponent : Int) : Double :=
  if digits == 0 then zero negative
  else
    let magnitude := exponent + decimalLength digits
    if 400 < magnitude then .infinite negative
    else if magnitude < -400 then zero negative
    else if exponent < 0 then ofQuotient negative digits (Nat.pow 10 exponent.natAbs)
    else ofQuotient negative (digits * Nat.pow 10 exponent.natAbs) 1

/-- The double nearest to an integer; an integer beyond all doubles gives an infinity. -/
def ofInt (n : Int) : Double := ofDecimal (n < 0) n.natAbs 0

/-- Whether the number is neither infinite nor a NaN. -/
def isFinite : Double → Bool
  | .finite .. => true
  | _ => false

/-- Whether the number is zero, of either sign. -/
def isZero : Double → Bool
  | .finite _ significand _ => significand == 0
  | _ => false

/-- The number without its fraction; infinities and NaN have none. -/
def truncate? : Double → Option Int
  | .finite negative significand exponent =>
    let n : Nat :=
      if exponent < 0 then significand / Nat.pow 2 exponent.natAbs
      else significand * Nat.pow 2 exponent.natAbs
    some (if negative then -(n : Int) else n)
  | _ => none

/-- The integer that the number is equal to, if there is one. -/
def toInt? : Double → Option Int
  | .finite negative significand exponent =>
    if exponent < 0 && significand % Nat.pow 2 exponent.natAbs != 0 then none
    else truncate? (.finite negative significand exponent)
  | _ => none

end Double

end RemoteNodes
