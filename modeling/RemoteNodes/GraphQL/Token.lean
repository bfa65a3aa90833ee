import RemoteNodes.Json.Parser
/-!
The tokens of GraphQL texts. Commas, blanks, line breaks, comments and byte order marks separate
tokens and have no meaning of their own.

The scanner takes the number of characters as fuel: every step consumes at least one.
-/

namespace RemoteNodes

/-- A token. Strings are without their quotes and escapes, numbers are as they are written. -/
inductive Token where
  | mark (c : Char)
  | ellipsis
  | name (text : String)
  | int (text : String)
  | float (text : String)
  | string (value : String) (isBlock : Bool)
  deriving Repr, DecidableEq, Inhabited

namespace Token

/-- Whether a name may begin with a character. -/
def isNameStart (c : Char) : Bool := c.isAlpha || c = '_'

/-- Whether a name may go on with a character. -/
def isNamePart (c : Char) : Bool := c.isAlphanum || c = '_'

/-- The characters that are tokens by themselves. -/
def isMark (c : Char) : Bool := "!&$():=@[]\x7b|\x7d".toList.contains c

/-- At least one digit at the front, and the rest. -/
def digits? (cs : List Char) : Option (List Char × List Char) :=
  let ds := cs.takeWhile Char.isDigit
  if ds.isEmpty then none else some (ds, cs.dropWhile Char.isDigit)

/-- The integer part of a number, sign included: no zero stands before another digit. -/
def wholePart? (cs : List Char) : Option (List Char × List Char) := do
  let (sign, cs) := match cs with
    | '-' :: cs => (['-'], cs)
    | cs => ([], cs)
  let (ds, rest) ← digits? cs
  match ds with
  | '0' :: _ :: _ => none
  | _ => some (sign ++ ds, rest)

/-- The fraction of a number with its point, empty when there is none. -/
def fractionPart? : List Char → Option (List Char × List Char)
  | '.' :: cs => do
    let (ds, rest) ← digits? cs
    some ('.' :: ds, rest)
  | cs => some ([], cs)

/-- The exponent of a number with its letter and sign, empty when there is none. -/
def exponentPart? : List Char → Option (List Char × List Char)
  | c :: cs =>
    if c = 'e' || c = 'E' then do
      let (sign, cs) := match cs with
        | '-' :: cs => (['-'], cs)
        | '+' :: cs => (['+'], cs)
        | cs => ([], cs)
      let (ds, rest) ← digits? cs
      some (c :: sign ++ ds, rest)
    else some ([], c :: cs)
  | [] => some ([], [])

/-- The number at the front. No name and no point may follow it directly. -/
def number? (cs : List Char) : Option (Token × List Char) := do
  let (whole, cs) ← wholePart? cs
  let (fraction, cs) ← fractionPart? cs
  let (exponent, cs) ← exponentPart? cs
  if cs.head?.any fun c => c = '.' || isNameStart c then none
  else
    let text := String.ofList (whole ++ fraction ++ exponent)
    some (if fraction.isEmpty && exponent.isEmpty then int text else float text, cs)

/-- Whether a code point is a character, that is, no surrogate and not too large. -/
def isScalarValue (n : Nat) : Bool := n < 0xD800 || (0xDFFF < n && n < 0x110000)

/-- The code point in braces: one to eight hexadecimal digits up to the closing brace. -/
def bracedPoint? : (fuel : Nat) → (any : Bool) → (point : Nat) → List Char →
    Option (Char × List Char)
  | _, any, point, '\x7d' :: cs =>
    if any && isScalarValue point then some (Char.ofNat point, cs) else none
  | fuel + 1, _, point, c :: cs => do
    let d ← Text.hexValue? c
    bracedPoint? fuel true (point * 16 + d) cs
  | _, _, _, _ => none

/-- The character after `\u`: digits in braces, four digits, or a surrogate pair of twice four. -/
def escapedPoint? : List Char → Option (Char × List Char)
  | '\x7b' :: cs => bracedPoint? 8 false 0 cs
  | cs => do
    let (n, rest) ← Json.readUnit? cs
    if isScalarValue n then some (Char.ofNat n, rest)
    else if Json.isHighSurrogate n then
      match rest with
      | '\\' :: 'u' :: more => do
        let (low, rest) ← Json.readUnit? more
        if Json.isLowSurrogate low then
          some (Char.ofNat (0x10000 + (n - 0xD800) * 0x400 + (low - 0xDC00)), rest)
        else none
      | _ => none
    else none

/-- The character that an escape of one letter stands for. -/
def escapedLetter? : Char → Option Char
  | '"' => some '"'
  | '\\' => some '\\'
  | '/' => some '/'
  | 'b' => some '\x08'
  | 'f' => some '\x0c'
  | 'n' => some '\n'
  | 'r' => some '\r'
  | 't' => some '\t'
  | _ => none

/-- The rest of a string after its opening quote. It ends on its own line. -/
def quotedString? : (fuel : Nat) → List Char → List Char → Option (Token × List Char)
  | 0, _, _ => none
  | _ + 1, _, [] => none
  | fuel + 1, acc, c :: cs =>
    if c = '"' then some (string (String.ofList acc.reverse) false, cs)
    else if c = '\n' || c = '\r' then none
    else if c = '\\' then
      match cs with
      | 'u' :: cs => do
        let (c, rest) ← escapedPoint? cs
        quotedString? fuel (c :: acc) rest
      | e :: cs => do
        let c ← escapedLetter? e
        quotedString? fuel (c :: acc) cs
      | [] => none
    else quotedString? fuel (c :: acc) cs

/-- Whether a character counts as indentation. -/
def isIndent (c : Char) : Bool := c = ' ' || c = '\t'

/-- The common indentation of the lines after the first: blank lines do not count. -/
def commonIndent? (ls : List (List Char)) : Option Nat :=
  let indents := (ls.drop 1).filterMap fun l =>
    let n := (l.takeWhile isIndent).length
    if n == l.length then none else some n
  indents.min?

/-- The lines of a block string without their common indentation and without the blank lines at
either end. -/
def dedent (ls : List (List Char)) : List (List Char) :=
  let cut := match commonIndent? ls with
    | none => fun l => l
    | some n => fun l => l.drop n
  let ls := match ls with
    | [] => []
    | first :: rest => first :: rest.map cut
  let isBlank := fun (l : List Char) => l.all isIndent
  ((ls.dropWhile isBlank).reverse.dropWhile isBlank).reverse

/-- The value of a block string with these lines. -/
def blockValue (ls : List (List Char)) : String :=
  String.ofList (['\n'].intercalate (dedent ls))

/-- The rest of a block string after its opening quotes: `line` is what was read of the current
line and `before` the finished lines, both reversed. -/
def blockString? : (fuel : Nat) → (before : List (List Char)) → (line : List Char) → List Char →
    Option (Token × List Char)
  | 0, _, _, _ => none
  | fuel + 1, before, line, cs =>
    match cs with
    | [] => none
    | '"' :: '"' :: '"' :: rest =>
      some (string (blockValue (line.reverse :: before).reverse) true, rest)
    | '\\' :: '"' :: '"' :: '"' :: rest =>
      blockString? fuel before ('"' :: '"' :: '"' :: line) rest
    | '\r' :: '\n' :: rest => blockString? fuel (line.reverse :: before) [] rest
    | c :: rest =>
      if c = '\n' || c = '\r' then blockString? fuel (line.reverse :: before) [] rest
      else blockString? fuel before (c :: line) rest

/-- The tokens of the characters, after those already found. -/
def scanFrom : (fuel : Nat) → List Token → List Char → Option (List Token)
  | 0, _, _ => none
  | _ + 1, found, [] => some found.reverse
  | fuel + 1, found, c :: cs =>
    if c = ' ' || c = '\t' || c = ',' || c = '\uFEFF' || c = '\n' || c = '\r' then
      scanFrom fuel found cs
    else if c = '#' then
      scanFrom fuel found (cs.dropWhile fun c => c ≠ '\n' && c ≠ '\r')
    else if isMark c then scanFrom fuel (mark c :: found) cs
    else if c = '.' then
      match cs with
      | '.' :: '.' :: rest => scanFrom fuel (ellipsis :: found) rest
      | _ => none
    else if c = '"' then
      let read := match cs with
        | '"' :: '"' :: rest => blockString? fuel [] [] rest
        | _ => quotedString? fuel [] cs
      match read with
      | some (token, rest) => scanFrom fuel (token :: found) rest
      | none => none
    else if c.isDigit || c = '-' then
      match number? (c :: cs) with
      | some (token, rest) => scanFrom fuel (token :: found) rest
      | none => none
    else if isNameStart c then
      let text := String.ofList (c :: cs.takeWhile isNamePart)
      scanFrom fuel (name text :: found) (cs.dropWhile isNamePart)
    else none

/-- The tokens of a text, if it has no lexical error. -/
def scan? (s : String) : Option (List Token) :=
  let cs := s.toList
  scanFrom (cs.length + 1) [] cs

end Token

end RemoteNodes
