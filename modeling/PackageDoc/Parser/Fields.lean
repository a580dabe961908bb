/-
  Variables, parameters and fields of records.

  The text of a variable goes up to its semicolon; at the first `:=` or `default`
  outside parentheses its default value starts.  A parameter goes up to the comma
  or the parenthesis behind it, parentheses inside being counted.
-/
import PackageDoc.Parser.Basic
import PackageDoc.Parser.TypeText

namespace PackageDoc

/-! ## Parts of a declaration -/

/-- Whether a default value starts with a token of this kind. -/
def startsDefault (kind : TokenKind) : Bool := kind = .op .assign || kind = .keyword .default

/-- How many parentheses are open behind a token, where `depth` are open before
    it. -/
def depthAfter (depth : Nat) (kind : TokenKind) : Nat :=
  if kind = .op .openParen then depth + 1
  else if kind = .op .closeParen then depth - 1
  else depth

/-- Splits the tokens of a variable, `depth` parentheses being open, into those
    of its type and those of its default value. -/
def splitDefault (depth : Nat) : List DocToken → List DocToken × List DocToken
  | [] => ([], [])
  | t :: ts =>
    if depth = 0 && startsDefault t.kind then ([], ts)
    else let (type, value) := splitDefault (depthAfter depth t.kind) ts; (t :: type, value)

/-- Whether the tokens of a type say `not null`. -/
def saysNotNull : List DocToken → Bool
  | t :: u :: ts =>
    (t.kind = .keyword .not && u.kind = .keyword .null) || saysNotNull (u :: ts)
  | _ => false

/-- Splits tokens, `depth` parentheses being open, where outside parentheses one
    that `stop` accepts or a closing parenthesis comes. -/
def splitNested (stop : TokenKind → Bool) (depth : Nat) :
    List DocToken → List DocToken × List DocToken
  | [] => ([], [])
  | t :: ts =>
    if depth = 0 && (t.kind = .op .closeParen || stop t.kind) then ([], t :: ts)
    else
      let (inner, rest) := splitNested stop (depthAfter depth t.kind) ts
      (t :: inner, rest)

theorem splitNested_append (stop : TokenKind → Bool) (depth : Nat) (ts : List DocToken) :
    (splitNested stop depth ts).1 ++ (splitNested stop depth ts).2 = ts := by
  induction ts generalizing depth with
  | nil => rfl
  | cons t ts ih =>
    unfold splitNested
    split
    · rfl
    · simp [ih]

/-- How many parentheses are open behind some tokens. -/
def openDepth (ts : List DocToken) : Nat := ts.foldl (fun d t => depthAfter d t.kind) 0

/-- The tokens without their comments. -/
def plainTokens (ts : List DocToken) : List Token := ts.map (·.token)

namespace Parser

/-- Moves to the token that ends a nested text outside parentheses, and gives the
    tokens passed over. -/
def takeNested (stop : TokenKind → Bool) : Parser (List DocToken) :=
  passTo (splitNested stop 0) (splitNested_append stop 0)

/-! ## Variables -/

/-- A variable, a constant or an exception.  The current token is its name; the
    parser stops at the semicolon, or at `exception`. -/
def variableField : Parser Field := do
  let doc := (← current).leadDoc
  let name ← name
  advance
  if ← isAt (.keyword .exception) then return .ofException doc name
  let constant ← isAt (.keyword .constant)
  if constant then advance
  let start := (← current).span.start
  let tokens ← takeTo (·.kind = .op .semicolon)
  let (type, value) := splitDefault 0 tokens
  let typeIdent := Ident.ofTokens start (plainTokens type)
  let default? := Ident.ofTokens? (plainTokens value)
  let notNull := saysNotNull type
  return if constant then .ofConstant doc name typeIdent default? notNull
    else .ofVariable doc name typeIdent default? notNull

/-! ## Parameters -/

/-- The mode of a parameter; the parser moves behind it. -/
def passMode : Parser PassMode := do
  if ← isAt (.keyword .out) then
    advance
    return .output
  else if ← isAt (.keyword .in_) then
    advance
    if ← isAt (.keyword .out) then
      advance
      return .inputOutput
    else return .input
  else return .unstated

/-- The default value of a parameter.  The parser stops at the comma or the
    parenthesis behind it. -/
def paramDefault : Parser (Option Ident) := do
  if startsDefault (← current).kind then
    advance
    let tokens ← takeNested (· = .op .comma)
    if (← atEnd) && openDepth tokens != 0 then advance
    return Ident.ofTokens? (plainTokens tokens)
  else return none

/-- A parameter or a field of a record.  The current token is its name, which may
    be any token; the parser stops at the comma or the parenthesis behind it. -/
def param : Parser Field := do
  let t ← current
  advance
  let mode ← passMode
  let word ← current
  if word.kind = .ident && word.lexeme == "nocopy" then advance
  let first ← current
  if !first.kind.isKeyword then require .ident
  let tokens ← takeNested fun kind => kind = .op .comma || startsDefault kind
  let type := Ident.ofTokens first.span.start (plainTokens tokens)
  let default? ← paramDefault
  return .ofParameter t.fieldDoc ⟨t.lexeme, t.span⟩ mode type default?

/-- One more field of a list, behind its opening parenthesis or a comma.  With
    the field that the closing parenthesis follows, the list is complete. -/
def fieldStep (opening : Nat) (done : List Field) : Parser (List Field ⊕ FieldList) := do
  let f ← param
  let t ← current
  if t.kind = .op .closeParen then
    return .inr ⟨opening, (f :: done).reverse, t.span.start⟩
  else
    require (.op .comma)
    return .inl (f :: done)

/-- A list of fields.  The current token is its opening parenthesis; the parser
    stops behind the closing one. -/
def fieldList : Parser FieldList := do
  let opening := (← current).span.start
  let list ← iterate (fieldStep opening) (fun done => ⟨opening, done.reverse, opening⟩) []
  advance
  return list

/-- A list of fields, if one starts here. -/
def fieldList? : Parser (Option FieldList) := do
  if ← isAt (.op .openParen) then return some (← fieldList) else return none

/-- A group in parentheses.  The current token is the opening one; the parser
    stops at the closing one, and gives the tokens from the one to the other. -/
def group : Parser (List DocToken) := do
  let start ← current
  advance
  let inner ← takeNested fun _ => false
  if ← atEnd then return start :: inner
  else return start :: inner ++ [← current]

end Parser

end PackageDoc
