/-!
Host names beyond ASCII. A label with other characters is written by its ASCII characters, followed
by the places and values of the others as numbers of variable length in base 36; each number says
how far to go on from the character before it.

* `Punycode.encode`: the code of a label.
-/

namespace RemoteNodes.Text.Punycode

/-- Letters for 0 to 25, digits for 26 to 35. -/
def digit (n : Nat) : Char := if n < 26 then Char.ofNat (97 + n) else Char.ofNat (22 + n)

/-- The threshold of the digit at a place: at least 1 and at most 26. -/
def threshold (place bias : Nat) : Nat := min 26 (max 1 (place - bias))

theorem threshold_pos (place bias : Nat) : 0 < threshold place bias := by
  unfold threshold
  omega

/-- A number of variable length from a place on, the least significant digit first. A digit below
its threshold is the last one. -/
def number (place bias n : Nat) : List Char :=
  let t := threshold place bias
  if n < t then [digit n]
  else digit (t + (n - t) % (36 - t)) :: number (place + 36) bias ((n - t) / (36 - t))
termination_by n
decreasing_by
  have := threshold_pos place bias
  have : (n - threshold place bias) / (36 - threshold place bias) ≤ n - threshold place bias :=
    Nat.div_le_self _ _
  omega

/-- How many times a distance has to be divided until it is small, in steps of 36, and the bias that
it leads to. -/
def settle (steps distance : Nat) : Nat :=
  if 455 < distance then settle (steps + 36) (distance / 35)
  else steps + 36 * distance / (distance + 38)
termination_by distance
decreasing_by omega

/-- The bias after a number: small after small numbers. The first number counts little. -/
def nextBias (n written : Nat) (isFirst : Bool) : Nat :=
  let distance := if isFirst then n / 700 else n / 2
  settle 0 (distance + distance / written)

/-- What is known while a label is written: how many characters are written, the distance from the
last one, the bias, and the code so far. -/
structure State where
  written : Nat
  distance : Nat
  bias : Nat
  code : List Char

/-- Looks at a character of the label while those of value `point` are written. -/
def step (basic point : Nat) (s : State) (c : Char) : State :=
  if c.toNat < point then { s with distance := s.distance + 1 }
  else if c.toNat = point then
    { written := s.written + 1
      distance := 0
      bias := nextBias s.distance (s.written + 1) (s.written == basic)
      code := s.code ++ number 36 s.bias s.distance }
  else s

/-- Writes all characters of the values, which are given in ascending order; `last` is the value
before them. -/
def writePoints (cs : List Char) (basic : Nat) (last : Nat) (s : State) : List Nat → List Char
  | [] => s.code
  | point :: points =>
    let s := { s with distance := s.distance + (point - last) * (s.written + 1) }
    let s := cs.foldl (step basic point) s
    writePoints cs basic (point + 1) { s with distance := s.distance + 1 } points

/-- The code of a label. -/
def encode (cs : List Char) : List Char :=
  let basic := cs.filter (·.toNat < 128)
  let others := (cs.filter (128 ≤ ·.toNat)).map Char.toNat
  let points := (others.mergeSort fun a b => a ≤ b).eraseDups
  let start := if basic.isEmpty then [] else basic ++ ['-']
  writePoints cs basic.length 128 ⟨basic.length, 0, 72, start⟩ points

end RemoteNodes.Text.Punycode
