/-
  The lines of a text.

  `lines` cuts a text at its line feeds.  The line feed that ends a text opens
  no further line, and a carriage return before a line feed belongs to the line
  end.
-/
import PackageDoc.Text.Blank

namespace PackageDoc.Text

/-- A line without the carriage return at its end. -/
def dropReturn (line : List Char) : List Char :=
  if line.getLast? = some '\r' then line.dropLast else line

/-- The lines of a text, without their ends. -/
def lines (cs : List Char) : List (List Char) :=
  let pieces := cs.splitOn '\n'
  pieces.dropLast.map dropReturn ++ (pieces.getLast?.toList.filter (!·.isEmpty))

/-- The number of spaces at the start of a line. -/
def indent (line : List Char) : Nat := (line.takeWhile (· == ' ')).length

/-- The number of line feeds in a text. -/
def newlines (cs : List Char) : Nat := cs.count '\n'

end PackageDoc.Text
