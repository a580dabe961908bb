/-
  Blank characters and the trimming of lines.

  Two notions of blank are in use: `isBlank` is white space in the sense of
  Unicode, which decides whether a line of a comment is empty, and `isSpacing`
  is what may stand between tokens and what is cut off the end of a comment's
  lines.
-/
namespace PackageDoc.Text

/-- Whether a character is white space (the Unicode property `White_Space`). -/
def isBlank (c : Char) : Bool :=
  let n := c.toNat
  (0x09 ≤ n && n ≤ 0x0D) || n == 0x20 || n == 0x85 || n == 0xA0 || n == 0x1680 ||
    (0x2000 ≤ n && n ≤ 0x200A) || n == 0x2028 || n == 0x2029 || n == 0x202F || n == 0x205F ||
    n == 0x3000

/-- Whether a character is a space, a tab, a carriage return or a line feed. -/
def isSpacing (c : Char) : Bool := c == ' ' || c == '\t' || c == '\r' || c == '\n'

/-- Removes the characters at the end that satisfy `p`. -/
def dropEndWhile (p : Char → Bool) (cs : List Char) : List Char :=
  (cs.reverse.dropWhile p).reverse

/-- Removes white space at both ends. -/
def trim (cs : List Char) : List Char := dropEndWhile isBlank (cs.dropWhile isBlank)

/-- Whether a line is white space throughout. -/
def isBlankLine (cs : List Char) : Bool := cs.all isBlank

end PackageDoc.Text
