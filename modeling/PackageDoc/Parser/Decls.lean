/-
  Routines, cursors, types and subtypes.

  Each parser starts at the word that introduces the declaration and stops at the
  semicolon that ends it.
-/
import PackageDoc.Decl.Item
import PackageDoc.Parser.Fields

namespace PackageDoc

/-- Whether a token ends the type of a function's result. -/
def endsResult (t : DocToken) : Bool :=
  match t.kind with
  | .keyword .pipelined | .keyword .deterministic | .keyword .resultCache | .op .semicolon => true
  | .ident => t.lexeme == "parallel_enable"
  | _ => false

namespace Parser

/-- The text behind the current token, up to the semicolon. -/
def typeTail : Parser Ident := do
  advance
  let start := (← current).span.start
  let tokens ← takeTo (·.kind = .op .semicolon)
  return .ofTokens start (plainTokens tokens)

/-! ## Routines -/

/-- The type of a function's result, behind `return`. -/
def functionResult : Parser Ident := do
  require (.keyword .return_)
  advance
  let start := (← current).span.start
  let tokens ← takeTo endsResult
  return .ofTokens start (plainTokens tokens)

/-- A function or a procedure. -/
def routine : Parser Routine := do
  let t ← current
  let name ← nextName
  advance
  let params ← fieldList?
  if t.kind = .keyword .procedure then
    skipTo (.op .semicolon)
    return { doc := t.leadDoc, name, params, kind := .procedure, result := none, pipelined := false
             deterministic := false, resultCache := false }
  else
    let result ← functionResult
    let clauses ← takeTo (·.kind = .op .semicolon)
    let has (k : Keyword) : Bool := clauses.any (·.kind = .keyword k)
    return { doc := t.leadDoc, name, params, kind := .function, result := some result
             pipelined := has .pipelined, deterministic := has .deterministic
             resultCache := has .resultCache }

/-! ## Cursors -/

/-- The type of a cursor's rows, if `return` is here. -/
def cursorResult? : Parser (Option Ident) := do
  if ← isAt (.keyword .return_) then
    advance
    let start := (← current).span.start
    let tokens ← takeTo fun t => t.kind = .keyword .is || t.kind = .op .semicolon
    return some (.ofTokens start (plainTokens tokens))
  else return none

/-- The query of a cursor: the source from the token behind `is` to the
    semicolon. -/
def cursorQuery : Parser Sql := do
  let t ← current
  if t.kind = .op .semicolon then return ⟨t.span.start, ""⟩
  else
    skipTo (.keyword .is)
    advance
    let start := (← current).span.start
    skipTo (.op .semicolon)
    let stop := (← current).span.start
    return ⟨start, String.ofList (Text.slice (← input).text start stop)⟩

/-- A cursor. -/
def cursor : Parser Cursor := do
  let doc := (← current).leadDoc
  let name ← nextName
  advance
  let params ← fieldList?
  let result ← cursorResult?
  let sql ← cursorQuery
  return { doc, name, params, result, sql }

/-! ## Types -/

/-- The bound of an array, if one is here: the text between its parentheses. -/
def arrayBound? : Parser (Option Ident) := do
  let t ← current
  if t.kind = .op .openParen then
    let tokens ← group
    let body := groupBody (tokensText (plainTokens tokens)).toList
    let start := t.span.start + 1
    let stop := (← current).span.stop - 1
    return some ⟨String.ofList body, start, max stop start⟩
  else return none

/-- `table of element`. -/
def tableType : Parser TypeBody := do
  advance
  skipTo (.keyword .of)
  return .table (← typeTail)

/-- `varray(bound) of element`. -/
def arrayType : Parser TypeBody := do
  advance
  let bound ← arrayBound?
  skipTo (.keyword .of)
  return .varray bound (← typeTail)

/-- `record (fields)`. -/
def recordType : Parser TypeBody := do
  advance
  require (.op .openParen)
  return .record (← fieldList)

/-- `ref cursor return type`. -/
def refCursorType : Parser TypeBody := do
  advance
  require (.keyword .cursor)
  advance
  if ← isAt (.op .semicolon) then return .refCursor none
  else
    require (.keyword .return_)
    return .refCursor (some (← typeTail))

/-- The definition of a type, if it is of a kind that is documented; any other is
    skipped. -/
def typeBody? (name : Ident) : Parser (Option TypeBody) := do
  let t ← current
  match t.kind with
  | .keyword .table => return some (← tableType)
  | .keyword .varray => return some (← arrayType)
  | .keyword .record => return some (← recordType)
  | .keyword .ref => return some (← refCursorType)
  | kind =>
    log (.skippedType name.name kind)
    skipTo (.op .semicolon)
    return none

/-- A type, if it is of a kind that is documented. -/
def typeDecl? : Parser (Option TypeDecl) := do
  let doc := (← current).leadDoc
  let name ← nextName
  advance
  require (.keyword .is)
  advance
  return (← typeBody? name).map fun body => { doc, name, body }

/-- A subtype. -/
def subtype : Parser Subtype := do
  let doc := (← current).leadDoc
  let name ← nextName
  advance
  require (.keyword .is)
  return { doc, name, base := ← typeTail }

end Parser

end PackageDoc
