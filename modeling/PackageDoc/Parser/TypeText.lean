/-
  Types and values as text.

  A type or a value is put together from its tokens.  A word is set apart by a
  space from a word or a closing parenthesis before it, and everything else
  follows without a space; strings get their quotes back.
-/
import PackageDoc.Decl.Field
import PackageDoc.Token.Basic

namespace PackageDoc

/-- A token as it stands in the text of a type. -/
def Token.typeText (t : Token) : String :=
  if t.kind = .string then "'" ++ t.lexeme ++ "'" else t.lexeme

/-- Whether a word behind the token needs a space. -/
def Token.parts (t : Token) : Bool := t.kind.isWord || t.kind = .op .closeParen

/-- The text of some tokens; `apart` tells whether a word at their front needs a
    space. -/
def joinTokens : (apart : Bool) → List Token → String
  | _, [] => ""
  | apart, t :: ts =>
    (if apart && t.kind.isWord then " " else "") ++ t.typeText ++ joinTokens t.parts ts

/-- The text of some tokens. -/
def tokensText (ts : List Token) : String := joinTokens false ts

/-- The text of some tokens and the source from the first to the last; none
    without tokens. -/
def Ident.ofTokens? (ts : List Token) : Option Ident :=
  match ts.head?, ts.getLast? with
  | some first, some last =>
    some ⟨tokensText ts, first.span.start, max last.span.stop first.span.start⟩
  | _, _ => none

/-- The text of some tokens; without tokens an empty one at `pos`. -/
def Ident.ofTokens (pos : Nat) (ts : List Token) : Ident :=
  (Ident.ofTokens? ts).getD ⟨"", pos, pos⟩

/-- The text between the parentheses of a group; the group itself if it is not
    closed. -/
def groupBody (group : List Char) : List Char :=
  match group with
  | '(' :: body => if body.getLast? = some ')' then body.dropLast else group
  | _ => group

end PackageDoc
