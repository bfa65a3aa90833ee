/-!
Blank characters and trimming. A character is blank when Unicode calls it white space or one of the
four information separators U+001C to U+001F.
-/

namespace RemoteNodes.Text

/-- White space of any script, the information separators included. -/
def isBlank (c : Char) : Bool :=
  let n := c.toNat
  (9 ≤ n && n ≤ 13) || (28 ≤ n && n ≤ 32) || n == 0x85 || n == 0xA0 || n == 0x1680 ||
    (0x2000 ≤ n && n ≤ 0x200A) || n == 0x2028 || n == 0x2029 || n == 0x202F || n == 0x205F ||
    n == 0x3000

/-- White space of any script. -/
def isSpace (c : Char) : Bool := isBlank c && (c.toNat < 28 || 31 < c.toNat)

/-- The characters without those at either end that pass a test. -/
def trim (test : Char → Bool) (cs : List Char) : List Char :=
  (((cs.dropWhile test).reverse).dropWhile test).reverse

/-- The characters without the blank ones at either end. -/
def stripBlanks (cs : List Char) : List Char := trim isBlank cs

end RemoteNodes.Text
