/-
  Doc text as HTML.

  The lines of a doc text form blocks.  The indent of the first line that is not
  blank is the base: lines that are not deeper form paragraphs, which blank
  lines separate; a deeper line opens a preformatted block, which goes on, blank
  lines included, until a line comes back to the base.  A preformatted block is
  moved left by the indent of its first line.
-/
import PackageDoc.Comment
import PackageDoc.Html.Node
import PackageDoc.Text.Lines

namespace PackageDoc.Html

open Text

/-- A block of a doc text. -/
inductive Block where
  | paragraph (lines : List (List Char))
  | preformatted (lines : List (List Char))
  deriving DecidableEq, Repr

/-- The block that is being read: its lines, latest first, and, if it is
    preformatted, by how much it is moved left. -/
structure Draft where
  shift : Option Nat
  lines : List (List Char)

/-- The finished block, without the blank lines at its end; none if no line is
    left. -/
def Draft.close (d : Draft) : List Block :=
  let lines := (d.lines.dropWhile (·.isEmpty)).reverse
  if lines.isEmpty then []
  else
    match d.shift with
    | none => [.paragraph lines]
    | some _ => [.preformatted lines]

/-- The blocks of the lines that follow a draft. -/
def blocksAfter (base : Nat) : Draft → List (List Char) → List Block
  | d, [] => d.close
  | ⟨none, done⟩, l :: ls =>
    if isBlankLine l then Draft.close ⟨none, done⟩ ++ blocksAfter base ⟨none, []⟩ ls
    else if base < indent l then
      Draft.close ⟨none, done⟩ ++ blocksAfter base ⟨some (indent l), [l.drop (indent l)]⟩ ls
    else blocksAfter base ⟨none, trim l :: done⟩ ls
  | ⟨some shift, done⟩, l :: ls =>
    if isBlankLine l then blocksAfter base ⟨some shift, [] :: done⟩ ls
    else if base < indent l then
      blocksAfter base ⟨some shift, l.drop (min (indent l) shift) :: done⟩ ls
    else Draft.close ⟨some shift, done⟩ ++ blocksAfter base ⟨none, [trim l]⟩ ls

/-- The indent of the first line that is not blank. -/
def baseIndent (ls : List (List Char)) : Nat := ((ls.find? (!isBlankLine ·)).map indent).getD 0

/-- The blocks of a doc text. -/
def blocks (text : String) : List Block :=
  let ls := lines text.toList
  blocksAfter (baseIndent ls) ⟨none, []⟩ ls

/-- Lines of text with line ends between them. -/
def lineNodes (ls : List (List Char)) : List Node :=
  (ls.map fun l => Node.text (String.ofList l)).intersperse .newline

/-- A block as an element. -/
def Block.node : Block → Node
  | paragraph ls => .element "p" [] (lineNodes ls)
  | preformatted ls => .element "pre" [] (lineNodes ls)

/-- The elements of a doc text, one after the other on lines of their own. -/
def docNodes (text : String) : List Node := ((blocks text).map Block.node).intersperse .newline

/-- The HTML of a doc text. -/
def docTextHtml (text : String) : String := renderAll (docNodes text)

/-- The HTML of the comments of a declaration. -/
def docHtml (doc : Option CommentGroup) : String := docTextHtml (docText doc)

end PackageDoc.Html
