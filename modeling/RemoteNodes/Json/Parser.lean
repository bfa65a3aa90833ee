import RemoteNodes.Json.Value
import RemoteNodes.Text.Quoted
/-!
Reading JSON texts. Besides the standard's grammar the numbers `NaN`, `Infinity` and `-Infinity` are
read. A repeated key keeps its first place and its last value.

The readers of nested values take the number of characters as fuel: every call consumes one, so the
fuel never runs out on a text of that length.
-/

namespace RemoteNodes.Json

/-- Skips blanks between tokens. -/
def skipBlanks : List Char → List Char
  | [] => []
  | c :: cs => if c = ' ' || c = '\t' || c = '\n' || c = '\r' then skipBlanks cs else c :: cs

/-- The unit that four hexadecimal digits at the front write, and the rest. -/
def readUnit? : List Char → Option (Nat × List Char)
  | a :: b :: c :: d :: cs => do
    let a ← Text.hexValue? a
    let b ← Text.hexValue? b
    let c ← Text.hexValue? c
    let d ← Text.hexValue? d
    some (((a * 16 + b) * 16 + c) * 16 + d, cs)
  | _ => none

/-- Whether a unit is the first of a surrogate pair. -/
def isHighSurrogate (n : Nat) : Bool := 0xD800 ≤ n && n < 0xDC00

/-- Whether a unit is the second of a surrogate pair. -/
def isLowSurrogate (n : Nat) : Bool := 0xDC00 ≤ n && n < 0xE000

/-- The character of one unit; a surrogate without its partner has none and becomes U+FFFD. -/
def charOfUnit (n : Nat) : Char :=
  if isHighSurrogate n || isLowSurrogate n then '\uFFFD' else Char.ofNat n

/-- The character of a surrogate pair. -/
def charOfPair (high low : Nat) : Char :=
  Char.ofNat (0x10000 + (high - 0xD800) * 0x400 + (low - 0xDC00))

/-- The character after `\u`: a surrogate pair counts as one character. -/
def readEscapedChar? (cs : List Char) : Option (Char × List Char) := do
  let (n, rest) ← readUnit? cs
  if isHighSurrogate n then
    match rest with
    | '\\' :: 'u' :: more =>
      match readUnit? more with
      | some (low, rest') =>
        if isLowSurrogate low then
          some (charOfPair n low, rest')
        else some (charOfUnit n, rest)
      | none => some (charOfUnit n, rest)
    | _ => some (charOfUnit n, rest)
  else some (charOfUnit n, rest)

/-- The rest of a string literal after its opening quote, and what follows it. -/
def readString? : (fuel : Nat) → List Char → List Char → Option (String × List Char)
  | 0, _, _ => none
  | _ + 1, _, [] => none
  | _ + 1, acc, '"' :: cs => some (String.ofList acc.reverse, cs)
  | fuel + 1, acc, '\\' :: c :: cs =>
    match c with
    | '"' => readString? fuel ('"' :: acc) cs
    | '\\' => readString? fuel ('\\' :: acc) cs
    | '/' => readString? fuel ('/' :: acc) cs
    | 'b' => readString? fuel ('\x08' :: acc) cs
    | 'f' => readString? fuel ('\x0c' :: acc) cs
    | 'n' => readString? fuel ('\n' :: acc) cs
    | 'r' => readString? fuel ('\r' :: acc) cs
    | 't' => readString? fuel ('\t' :: acc) cs
    | 'u' =>
      match readEscapedChar? cs with
      | some (c, rest) => readString? fuel (c :: acc) rest
      | none => none
    | _ => none
  | fuel + 1, acc, c :: cs => if c.toNat < 32 then none else readString? fuel (c :: acc) cs

/-- The ASCII digits at the front, as a count and a number, and the rest. -/
def takeNumber : List Char → (count number : Nat) → Nat × Nat × List Char
  | [], count, number => (count, number, [])
  | c :: cs, count, number =>
    if c.isDigit then takeNumber cs (count + 1) (10 * number + (c.toNat - 48))
    else (count, number, c :: cs)

/-- The fraction at the front: how many digits, the number with them appended, the rest. -/
def takeFraction (whole : Nat) (cs : List Char) : Nat × Nat × List Char :=
  match cs with
  | '.' :: rest =>
    match takeNumber rest 0 whole with
    | (0, _, _) => (0, whole, cs)
    | taken => taken
  | _ => (0, whole, cs)

/-- The exponent at the front, if there is one, and the rest. -/
def takeExponent (cs : List Char) : Option Int × List Char :=
  match cs with
  | c :: rest =>
    if c = 'e' || c = 'E' then
      let (negative, digits) :=
        match rest with
        | '-' :: r => (true, r)
        | '+' :: r => (false, r)
        | r => (false, r)
      match takeNumber digits 0 0 with
      | (0, _, _) => (none, cs)
      | (_, n, after) => (some (if negative then -(n : Int) else n), after)
    else (none, cs)
  | [] => (none, [])

/-- The number at the front, whose sign has been read. -/
def readNumber? (negative : Bool) (cs : List Char) : Option (Json × List Char) :=
  let (count, whole, rest) :=
    match cs with
    | '0' :: rest => (1, 0, rest)
    | _ => takeNumber cs 0 0
  if count == 0 then none
  else
    let (places, digits, rest) := takeFraction whole rest
    match takeExponent rest with
    | (none, rest) =>
      if places == 0 then some (.int (if negative then -(digits : Int) else digits), rest)
      else some (.real (.ofDecimal negative digits (-(places : Int))), rest)
    | (some e, rest) => some (.real (.ofDecimal negative digits (e - places)), rest)

/-- What follows `word` at the front. -/
def afterWord? : (word cs : List Char) → Option (List Char)
  | [], cs => some cs
  | _ :: _, [] => none
  | w :: word, c :: cs => if w = c then afterWord? word cs else none

/-- A word that stands for a value. -/
def readWord? (word : String) (value : Json) (cs : List Char) : Option (Json × List Char) :=
  (afterWord? word.toList cs).map (value, ·)

mutual
/-- The value at the front and the rest. -/
def readValue? : (fuel : Nat) → List Char → Option (Json × List Char)
  | 0, _ => none
  | fuel + 1, cs =>
    match skipBlanks cs with
    | [] => none
    | '"' :: rest => (readString? fuel [] rest).map fun (s, rest) => (.str s, rest)
    | '[' :: rest =>
      match skipBlanks rest with
      | ']' :: rest => some (.arr [], rest)
      | rest => readItems? fuel [] rest
    | '\x7b' :: rest =>
      match skipBlanks rest with
      | '\x7d' :: rest => some (.obj [], rest)
      | rest => readFields? fuel [] rest
    | 't' :: rest => readWord? "rue" (.bool true) rest
    | 'f' :: rest => readWord? "alse" (.bool false) rest
    | 'n' :: rest => readWord? "ull" .null rest
    | 'N' :: rest => readWord? "aN" (.real .nan) rest
    | 'I' :: rest => readWord? "nfinity" (.real (.infinite false)) rest
    | '-' :: 'I' :: rest => readWord? "nfinity" (.real (.infinite true)) rest
    | '-' :: rest => readNumber? true rest
    | rest => readNumber? false rest
/-- The items of a list from the next one on, after those already read. -/
def readItems? : (fuel : Nat) → List Json → List Char → Option (Json × List Char)
  | 0, _, _ => none
  | fuel + 1, items, cs =>
    match readValue? fuel cs with
    | none => none
    | some (item, rest) =>
      match skipBlanks rest with
      | ',' :: rest => readItems? fuel (item :: items) rest
      | ']' :: rest => some (.arr (item :: items).reverse, rest)
      | _ => none
/-- The fields of an object from the next one on, after those already read. -/
def readFields? : (fuel : Nat) → List (String × Json) → List Char → Option (Json × List Char)
  | 0, _, _ => none
  | fuel + 1, fields, cs =>
    match skipBlanks cs with
    | '"' :: rest =>
      match readString? fuel [] rest with
      | none => none
      | some (key, rest) =>
        match skipBlanks rest with
        | ':' :: rest =>
          match readValue? fuel rest with
          | none => none
          | some (value, rest) =>
            match skipBlanks rest with
            | ',' :: rest => readFields? fuel ((key, value) :: fields) rest
            | '\x7d' :: rest =>
              some (.obj (Keyed.ofPairs ((key, value) :: fields).reverse), rest)
            | _ => none
        | _ => none
    | _ => none
end

/-- The value that a text writes; nothing but blanks may stand around it. -/
def parse? (s : String) : Option Json :=
  let cs := s.toList
  match readValue? (cs.length + 1) cs with
  | some (value, rest) => if (skipBlanks rest).isEmpty then some value else none
  | none => none

end RemoteNodes.Json
