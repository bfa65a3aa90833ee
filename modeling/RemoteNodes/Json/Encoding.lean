import RemoteNodes.Json.Parser
/-!
JSON texts as bytes. A JSON text begins with characters of ASCII, so that zero bytes at the front
show how wide its units are and which byte of a unit comes first.

* `Encoding.ofFront`: the encoding that the first bytes show.
* `Json.ofBytes?`: the value that bytes write.
-/

namespace RemoteNodes

/-- How a text is written in bytes: in UTF-8, or in units of a fixed width with the greatest byte
of a unit first or last. -/
inductive Encoding where
  | utf8
  | utf16 (greatestFirst : Bool)
  | utf32 (greatestFirst : Bool)
  deriving Repr, DecidableEq

namespace Encoding

/-- The encoding of a JSON text by its first bytes, four of them if there are as many. -/
def ofFront : List UInt8 → Encoding
  | [a, b] =>
    if a = 0 then utf16 true
    else if b = 0 then utf16 false
    else utf8
  | a :: b :: c :: d :: _ =>
    if a = 0 then if b = 0 then utf32 true else utf16 true
    else if b = 0 then if c = 0 ∧ d = 0 then utf32 false else utf16 false
    else utf8
  | _ => utf8

/-- The number that the bytes of a unit make up. -/
def number (greatestFirst : Bool) (bytes : List UInt8) : Nat :=
  (if greatestFirst then bytes else bytes.reverse).foldl (fun n b => n * 256 + b.toNat) 0

/-- The units of two bytes each; nothing if a byte is left over. -/
def pairs? (greatestFirst : Bool) : List UInt8 → Option (List Nat)
  | [] => some []
  | a :: b :: rest => do return number greatestFirst [a, b] :: (← pairs? greatestFirst rest)
  | _ => none

/-- The units of four bytes each; nothing if bytes are left over. -/
def fours? (greatestFirst : Bool) : List UInt8 → Option (List Nat)
  | [] => some []
  | a :: b :: c :: d :: rest => do
    return number greatestFirst [a, b, c, d] :: (← fours? greatestFirst rest)
  | _ => none

/-- The characters of units of sixteen bits: a surrogate pair is one character. -/
def joinPairs : List Nat → List Char
  | high :: low :: rest =>
    if Json.isHighSurrogate high && Json.isLowSurrogate low then
      Json.charOfPair high low :: joinPairs rest
    else Json.charOfUnit high :: joinPairs (low :: rest)
  | [unit] => [Json.charOfUnit unit]
  | [] => []

/-- The character of a unit of thirty-two bits, if it stands for one. -/
def char? (n : Nat) : Option Char := if n < 0x110000 then some (Json.charOfUnit n) else none

/-- The text that bytes write. A byte order mark before UTF-8 does not belong to the text. -/
def decode? (bytes : ByteArray) : Encoding → Option String
  | utf8 => do
    let text ← String.fromUTF8? bytes
    match text.toList with
    | '\uFEFF' :: rest => return String.ofList rest
    | _ => return text
  | utf16 greatestFirst => do return String.ofList (joinPairs (← pairs? greatestFirst bytes.toList))
  | utf32 greatestFirst => do
    return String.ofList (← (← fours? greatestFirst bytes.toList).mapM char?)

end Encoding

namespace Json

/-- The value that bytes write, in the encoding that they show. -/
def ofBytes? (bytes : ByteArray) : Option Json := do
  parse? (← (Encoding.ofFront (bytes.extract 0 4).toList).decode? bytes)

end Json

end RemoteNodes
