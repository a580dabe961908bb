/-
  Which comments belong to which token.

  Between two tokens there may be comments.  Those that start on the line of the
  token before them are its line comments, and of the others the last group may
  lead the token after them:

  * the *line group* is the run of comments that starts on the line of the token
    before, each of them on the line where the one before it ends; it counts
    only if the next token is not on the line where the run ends, or there is
    none;
  * the *lead group* is the last run of the other comments in which each starts
    at most one line behind the end of the one before it; it counts only if it
    ends on the line just above the next token.

  `attachComments` goes over the tokens of a source once and gives every token that
  is no comment its two groups.
-/
import PackageDoc.Comment
import PackageDoc.LineTable
import PackageDoc.Text.Lines
import PackageDoc.Token.Basic

namespace PackageDoc

/-! ## Runs of comments -/

/-- A comment with the lines on which it starts and ends. -/
structure PlacedComment where
  comment : Comment
  first : Nat
  last : Nat
  deriving DecidableEq, Repr

/-- The comment of a token, with its lines. -/
def PlacedComment.ofToken (lines : LineTable) (t : Token) : PlacedComment :=
  let first := lines.line t.pos
  ⟨⟨t.lexeme, t.pos⟩, first, first + Text.newlines t.lexeme.toList⟩

/-- The comments as a group, if there are any. -/
def groupOf (cs : List PlacedComment) : Option CommentGroup :=
  CommentGroup.ofList? (cs.map (·.comment))

/-- Splits off the run at the front whose first comment starts on `line` at the
    latest and whose others start on the line where the one before them ends. -/
def splitRun (line : Nat) : List PlacedComment → List PlacedComment × List PlacedComment
  | [] => ([], [])
  | c :: cs =>
    if c.first ≤ line then let (run, rest) := splitRun c.last cs; (c :: run, rest)
    else ([], c :: cs)

/-- Adds a comment to a run (latest first): it opens a new run if more than one
    line lies between. -/
def joinRun (run : List PlacedComment) (c : PlacedComment) : List PlacedComment :=
  match run with
  | [] => [c]
  | p :: _ => if c.first ≤ p.last + 1 then c :: run else [c]

/-- The last run of some comments. -/
def lastRun (cs : List PlacedComment) : List PlacedComment := (cs.foldl joinRun []).reverse

/-! ## The groups of one token -/

/-- The groups of comments around a token. -/
structure CommentSlots where
  line : Option CommentGroup := none
  lead : Option CommentGroup := none
  deriving DecidableEq

/-- The comments on the line of the token before, which starts on line `previous`
    (there may be none), and the other comments. -/
def splitSameLine (previous : Option Nat) (cs : List PlacedComment) :
    List PlacedComment × List PlacedComment :=
  match previous, cs with
  | some line, c :: _ => if c.first = line then splitRun line cs else ([], cs)
  | _, _ => ([], cs)

/-- The groups that the comments `cs` form between a token on line `previous`
    and a token on line `next`, which may be the end of the input. -/
def commentSlots (previous : Option Nat) (cs : List PlacedComment) (next : Nat) (atEnd : Bool) :
    CommentSlots :=
  let (same, others) := splitSameLine previous cs
  let follower := (others.head?.map (·.first)).getD next
  let lead := lastRun others
  { line :=
      if (same.getLast?.map (·.last)) ≠ some follower ∨ (others = [] ∧ atEnd) then groupOf same
      else none
    lead := if (lead.getLast?.map (·.last + 1)) = some next then groupOf lead else none }

/-! ## A whole source -/

/-- A token that is no comment, with its line, the comments on the way to it and
    the groups that they form. -/
structure DocToken where
  token : Token
  line : Nat
  skipped : List Token
  slots : CommentSlots
  deriving DecidableEq

namespace DocToken

/-- What the token is. -/
def kind (t : DocToken) : TokenKind := t.token.kind

/-- The text that the token stands for. -/
def lexeme (t : DocToken) : String := t.token.lexeme

/-- The source that the token was read from. -/
def span (t : DocToken) : Span := t.token.span

/-- The doc of a declaration: the comments that lead it. -/
def leadDoc (t : DocToken) : Option CommentGroup := t.slots.lead

/-- The doc of a parameter: the comments that lead it, else those on the line
    of the token before it. -/
def fieldDoc (t : DocToken) : Option CommentGroup := t.slots.lead.or t.slots.line

end DocToken

/-- A token behind the comments `skipped` and a token on line `previous`. -/
def docToken (lines : LineTable) (previous : Option Nat) (skipped : List Token) (t : Token) :
    DocToken :=
  let line := lines.line t.pos
  { token := t, line, skipped
    slots :=
      commentSlots previous (skipped.map (PlacedComment.ofToken lines)) line (t.kind = .eof) }

/-- The tokens of a source that are no comments, and the end of the input, with
    their comments.  `skipped` are the comments (latest first) since the token
    on line `previous`. -/
def attachFrom (lines : LineTable) (eof : Token) (previous : Option Nat)
    (skipped : List Token) : List Token → List DocToken × DocToken
  | [] => ([], docToken lines previous skipped.reverse eof)
  | t :: ts =>
    if t.kind = .comment then attachFrom lines eof previous (t :: skipped) ts
    else
      let d := docToken lines previous skipped.reverse t
      let (ds, last) := attachFrom lines eof (some d.line) [] ts
      (d :: ds, last)

/-- Each token, and the end of the input, is kept with comments that were in front of it. -/
theorem exists_docToken (lines : LineTable) (eof : Token) (previous : Option Nat)
    (skipped ts : List Token) :
    (∀ d ∈ (attachFrom lines eof previous skipped ts).1,
        ∃ previous skipped t, d = docToken lines previous skipped t) ∧
      ∃ previous' skipped', (attachFrom lines eof previous skipped ts).2 =
        docToken lines previous' skipped' eof := by
  fun_induction attachFrom lines eof previous skipped ts with
  | case1 previous skipped => exact ⟨by simp, previous, skipped.reverse, rfl⟩
  | case2 previous skipped t ts hcomment ih => exact ih
  | case3 previous skipped t ts hcomment d ds last heq ih =>
    rw [heq] at ih
    exact ⟨List.forall_mem_cons.2 ⟨⟨previous, skipped.reverse, t, rfl⟩, ih.1⟩, ih.2⟩

/-- The tokens of a source that are no comments, and the end of the input. -/
def attachComments (lines : LineTable) (tokens : List Token) (eof : Token) :
    List DocToken × DocToken :=
  attachFrom lines eof none [] tokens

end PackageDoc
