/-
  Tokens and the faults of a text that has none.

  A token has a kind, the text that it stands for (its lexeme) and the span of
  source that it was read from.  The lexeme need not be that source: names are
  lowercased, strings lose their quotes and comments their carriage returns.
-/
import PackageDoc.Span
import PackageDoc.Text.Quoted
import PackageDoc.Token.Kind

namespace PackageDoc

/-- A token of a source. -/
structure Token where
  kind : TokenKind
  lexeme : String
  span : Span
  deriving DecidableEq, Repr

/-- The offset of the first byte of a token. -/
def Token.pos (t : Token) : Nat := t.span.start

/-- A token as it stands in listings of tokens. -/
def Token.describe (t : Token) : String :=
  t.kind.name ++ "(" ++ Text.quoted t.lexeme ++ ") @ " ++ t.span.text

/-- Why a text cannot be scanned. -/
inductive ScanFault where
  /-- a block comment without end -/
  | unterminatedComment
  /-- bytes that are not UTF-8 -/
  | invalidUtf8
  /-- a single bar, where only `||` has a meaning -/
  | loneBar
  /-- more bytes than offsets can count -/
  | tooLarge
  deriving DecidableEq, Repr

/-- The wording of a fault. -/
def ScanFault.message : ScanFault → String
  | unterminatedComment => "comment not terminated"
  | invalidUtf8 => "illegal UTF-8 encoding"
  | loneBar => "Expecting another one |"
  | tooLarge => "file too large"

/-- A fault and the offset of what is at fault. -/
structure ScanError where
  fault : ScanFault
  pos : Nat
  deriving DecidableEq, Repr

end PackageDoc
