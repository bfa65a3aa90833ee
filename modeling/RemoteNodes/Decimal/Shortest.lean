import RemoteNodes.Decimal.Double
/-!
The shortest decimal digits of a double: the fewest significant digits that read back as the
number, and among those the nearest to it.

A decimal reads back when it lies in the interval of reals that round to the double. On the grid
of decimals with a given count of digits, if any point lies in that interval then so does one of
the two neighbours of the number itself, so two candidates for each count are enough.
-/

namespace RemoteNodes

/-- The number `digits * 10 ^ exponent`. -/
structure DecimalDigits where
  digits : Nat
  exponent : Int
  deriving Repr, DecidableEq, Inhabited

/-- How a decimal point number is written. -/
structure PointFormat where
  /-- Powers of ten (of the first digit) from here on are written with an exponent. -/
  firstLarge : Int
  /-- Powers of ten below this one are written with an exponent. -/
  firstPlain : Int
  /-- What follows a number without a fraction. -/
  wholeMark : String
  infinity : String
  nan : String
  deriving Repr

namespace Double

/-- `a * 2 ^ e` compared with `c * 10 ^ k`, both sides made whole: the two naturals. -/
def sides (a : Nat) (e : Int) (c : Nat) (k : Int) : Nat × Nat :=
  let twos := Nat.pow 2 e.natAbs
  let tens := Nat.pow 10 k.natAbs
  let x := a * (if e < 0 then 1 else twos) * (if k < 0 then tens else 1)
  let y := c * (if e < 0 then twos else 1) * (if k < 0 then 1 else tens)
  (x, y)

/-- Whether `10 ^ k ≤ s * 2 ^ e`. -/
def reaches (s : Nat) (e k : Int) : Bool :=
  let (x, y) := sides s e 1 k
  y ≤ x

/-- The power of ten of the first digit of `s * 2 ^ e`, for a positive `s`. -/
def leadingPower (s : Nat) (e : Int) : Int :=
  let guess := Int.fdiv (((s.log2 : Int) + e) * 30103) 100000
  if reaches s e (guess + 1) then guess + 1
  else if reaches s e guess then guess
  else guess - 1

/-- Whether `c * 10 ^ k` rounds to the double `s * 2 ^ e`. The interval of such reals reaches half a
unit up, and half a unit down or a quarter where the binade changes; its ends belong to it when the
significand is even. -/
def readsBack (s : Nat) (e : Int) (c : Nat) (k : Int) : Bool :=
  let down := if s == Nat.pow 2 52 && -1074 < e then 1 else 2
  let (low, y) := sides (4 * s - down) (e - 2) c k
  let (high, _) := sides (4 * s + 2) (e - 2) c k
  if s % 2 == 0 then low ≤ y && y ≤ high else low < y && y < high

/-- The one of the two grid neighbours of `s * 2 ^ e` with step `10 ^ k` that reads back and is
nearer; of two equally near the even one. -/
def gridNeighbour? (s : Nat) (e k : Int) : Option Nat :=
  let (x, step) := sides s e 1 k
  let low := x / step
  let high := low + 1
  match readsBack s e low k, readsBack s e high k with
  | false, false => none
  | true, false => some low
  | false, true => some high
  | true, true =>
    let r := x % step
    some (if 2 * r < step then low else if step < 2 * r then high
      else if low % 2 == 0 then low else high)

/-- The first hit on the grids of `count`, `count + 1`, … digits below the power `top`. -/
def firstHit (s : Nat) (e top : Int) : (fuel count : Nat) → DecimalDigits
  | 0, count => ⟨(gridNeighbour? s e (top - count)).getD 0, top - count⟩
  | fuel + 1, count =>
    match gridNeighbour? s e (top - count) with
    | some digits => ⟨digits, top - count⟩
    | none => firstHit s e top fuel (count + 1)

/-- Moves trailing zeros of the digits into the exponent. -/
def dropZeros (d : DecimalDigits) : (fuel : Nat) → DecimalDigits
  | 0 => d
  | fuel + 1 =>
    if d.digits != 0 && d.digits % 10 == 0 then dropZeros ⟨d.digits / 10, d.exponent + 1⟩ fuel
    else d

/-- The shortest digits of the positive number `s * 2 ^ e`. Seventeen are always enough. -/
def shortest (s : Nat) (e : Int) : DecimalDigits :=
  dropZeros (firstHit s e (leadingPower s e + 1) 16 1) 20

/-- The text of `digits * 10 ^ exponent`, positional or with an exponent of two digits at least. -/
def pointText (format : PointFormat) (d : DecimalDigits) : String :=
  let ds := Nat.toDigits 10 d.digits
  let power := d.exponent + ds.length - 1
  if format.firstPlain ≤ power && power < format.firstLarge then
    if 0 ≤ d.exponent then
      String.ofList (ds ++ List.replicate d.exponent.natAbs '0') ++ format.wholeMark
    else if 0 ≤ power then
      let whole := power.natAbs + 1
      String.ofList (ds.take whole) ++ "." ++ String.ofList (ds.drop whole)
    else "0." ++ String.ofList (List.replicate (power.natAbs - 1) '0' ++ ds)
  else
    let fraction := if ds.length ≤ 1 then "" else "." ++ String.ofList (ds.drop 1)
    let exponent := Nat.toDigits 10 power.natAbs
    let padding := List.replicate (2 - exponent.length) '0'
    String.ofList (ds.take 1) ++ fraction ++ "e" ++ (if power < 0 then "-" else "+") ++
      String.ofList (padding ++ exponent)

/-- The text of a double by its shortest digits. -/
def text (format : PointFormat) : Double → String
  | .nan => format.nan
  | .infinite negative => (if negative then "-" else "") ++ format.infinity
  | .finite negative significand exponent =>
    (if negative then "-" else "") ++
      (if significand == 0 then "0" ++ format.wholeMark
        else pointText format (shortest significand exponent))

end Double

end RemoteNodes
