/-
  Comments and the doc text that they hold.

  A comment is kept with its marks.  Comments that stand together form a group,
  and the group that belongs to a declaration documents it.  `CommentGroup.text`
  is the doc text of a group: the marks are removed, lines lose the spacing at
  their end, blank lines at both ends are dropped and several of them inside
  become one, and every line ends with a line feed.
-/
import PackageDoc.Span
import PackageDoc.Text.Blank
import PackageDoc.Text.Quoted
import PackageDoc.Text.Utf8

namespace PackageDoc

open Text

/-- A comment with its marks and the offset where it starts. -/
structure Comment where
  text : String
  start : Nat
  deriving DecidableEq, Repr

namespace Comment

/-- The source of a comment, as long as its text. -/
def span (c : Comment) : Span := .ofLength c.start c.text.utf8ByteSize

/-- A comment on one line, for listings. -/
def describe (c : Comment) : String := quoted c.text ++ " @ " ++ toString c.start

end Comment

/-- A text without the mark `*/` at its end. -/
def dropClose (cs : List Char) : List Char :=
  match cs.reverse with
  | '/' :: '*' :: body => body.reverse
  | _ => cs

/-- What a comment says: its text without the marks.  A line comment also loses
    the space behind its mark. -/
def commentBody : List Char → List Char
  | '-' :: '-' :: ' ' :: cs => cs
  | '-' :: '-' :: cs => cs
  | '/' :: '*' :: cs => dropClose cs
  | cs => cs

/-- Drops the blank lines that follow a blank line; `blank` tells whether the
    line before the first one is. -/
def squeeze : Bool → List (List Char) → List (List Char)
  | _, [] => []
  | blank, l :: ls =>
    if l.isEmpty then
      if blank then squeeze true ls else l :: squeeze true ls
    else l :: squeeze false ls

/-- Drops the last line if it is blank. -/
def dropBlankEnd (ls : List (List Char)) : List (List Char) :=
  if ls.getLast? = some [] then ls.dropLast else ls

/-- The lines of what some comments say, cut at the end. -/
def bodyLines (cs : List Comment) : List (List Char) :=
  cs.flatMap fun c => ((commentBody c.text.toList).splitOn '\n').map (dropEndWhile isSpacing)

/-- Comments that stand together, at least one. -/
structure CommentGroup where
  comments : List Comment
  nonempty : comments ≠ []
  deriving DecidableEq

namespace CommentGroup

/-- The group of some comments, if there are any. -/
def ofList? (cs : List Comment) : Option CommentGroup :=
  if h : cs = [] then none else some ⟨cs, h⟩

/-- The doc text of a group. -/
def text (g : CommentGroup) : String :=
  String.ofList ((dropBlankEnd (squeeze true (bodyLines g.comments))).flatMap (· ++ ['\n']))

/-- From the start of the first comment to the end of the last. -/
def span (g : CommentGroup) : Span :=
  ⟨(g.comments.head g.nonempty).start, (g.comments.getLast g.nonempty).span.stop⟩

end CommentGroup

/-- The doc text of a declaration, empty without comments. -/
def docText (doc : Option CommentGroup) : String := (doc.map (·.text)).getD ""

end PackageDoc
