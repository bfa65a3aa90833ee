/-!
Bytes as ASCII text: three bytes are four characters of six bits each. What is missing from the last
three is filled up by equals signs.

* `Base64.encode`: the text of bytes.
-/

namespace RemoteNodes.Text.Base64

/-- The character of a number of six bits. -/
def char (n : Nat) : Char :=
  if n < 26 then Char.ofNat (65 + n)
  else if n < 52 then Char.ofNat (71 + n)
  else if n < 62 then Char.ofNat (n - 4)
  else if n = 62 then '+'
  else '/'

/-- The first character of three bytes. -/
def first (a : UInt8) : Char := char (a.toNat / 4)

/-- The second character of three bytes. -/
def second (a b : UInt8) : Char := char (a.toNat % 4 * 16 + b.toNat / 16)

/-- The third character of three bytes. -/
def third (b c : UInt8) : Char := char (b.toNat % 16 * 4 + c.toNat / 64)

/-- The fourth character of three bytes. -/
def fourth (c : UInt8) : Char := char (c.toNat % 64)

/-- The text of bytes. -/
def encode : List UInt8 → List Char
  | [] => []
  | [a] => [first a, second a 0, '=', '=']
  | [a, b] => [first a, second a b, third b 0, '=']
  | a :: b :: c :: rest => first a :: second a b :: third b c :: fourth c :: encode rest

end RemoteNodes.Text.Base64
