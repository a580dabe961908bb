/-
  Packages.

  A package starts at the word `package` in a statement that starts with
  `create`; the comments that lead `create` document it.  Its declarations go up
  to `end`, which the name of the package may follow.  The bodies of packages are
  skipped, and so are pragmas, the directives of conditional compilation and
  whatever is not recognised.
-/
import PackageDoc.Package
import PackageDoc.Parser.Decls

namespace PackageDoc

/-! ## The start of a package -/

/-- The word `create` of the statement that a token belongs to or ends, where
    `create?` is that before the token. -/
def pendingCreate (create? : Option DocToken) (t : DocToken) : Option DocToken :=
  match t.kind with
  | .keyword .create => some t
  | .op .semicolon => none
  | _ => create?

/-- Splits tokens before the word `package` of a statement that creates one. -/
def splitPackage (create? : Option DocToken) : List DocToken → List DocToken × List DocToken
  | [] => ([], [])
  | t :: ts =>
    if t.kind = .keyword .package && create?.isSome then ([], t :: ts)
    else let (before, rest) := splitPackage (pendingCreate create? t) ts; (t :: before, rest)

theorem splitPackage_append (create? : Option DocToken) (ts : List DocToken) :
    (splitPackage create? ts).1 ++ (splitPackage create? ts).2 = ts := by
  induction ts generalizing create? with
  | nil => rfl
  | cons t ts ih =>
    unfold splitPackage
    split
    · rfl
    · simp [ih]

/-! ## Bodies -/

/-- Whether a token is the word `word`, which is not reserved. -/
def DocToken.isName (t : DocToken) (word : String) : Bool := t.kind = .ident && t.lexeme == word

/-- Whether `end` with this token behind it ends a statement that opened no
    block. -/
def closesStatement (t : DocToken) : Bool := t.kind = .keyword .if_ || t.isName "loop"

/-- Splits tokens behind the `end` that closes the last of `depth` blocks.
    `begin` and `case` open a block, and `end` closes one, unless it ends an `if`
    or a loop; a `case` behind `end` belongs to it. -/
def splitBody (depth : Nat) : List DocToken → List DocToken × List DocToken
  | [] => ([], [])
  | t :: ts =>
    if t.kind = .keyword .begin || t.isName "case" then
      let (body, rest) := splitBody (depth + 1) ts
      (t :: body, rest)
    else if t.kind = .keyword .end_ then
      match ts with
      | [] => ([t], [])
      | u :: us =>
        if closesStatement u then
          let (body, rest) := splitBody depth us
          (t :: u :: body, rest)
        else if depth ≤ 1 then ([t], u :: us)
        else if u.isName "case" then
          let (body, rest) := splitBody (depth - 1) us
          (t :: u :: body, rest)
        else
          let (body, rest) := splitBody (depth - 1) (u :: us)
          (t :: body, rest)
    else
      let (body, rest) := splitBody depth ts
      (t :: body, rest)

theorem splitBody_append (depth : Nat) (ts : List DocToken) :
    (splitBody depth ts).1 ++ (splitBody depth ts).2 = ts := by
  fun_induction splitBody depth ts <;> simp_all

/-! ## Directives -/

/-- Splits tokens at the first one that `closes` accepts right behind a dollar
    sign. -/
def splitDirective (closes : DocToken → Bool) : List DocToken → List DocToken × List DocToken
  | [] => ([], [])
  | t :: ts =>
    if t.kind = .op .dollar && (ts.head?.map closes).getD false then ([t], ts)
    else let (inner, rest) := splitDirective closes ts; (t :: inner, rest)

theorem splitDirective_append (closes : DocToken → Bool) (ts : List DocToken) :
    (splitDirective closes ts).1 ++ (splitDirective closes ts).2 = ts := by
  induction ts with
  | nil => rfl
  | cons t ts ih =>
    unfold splitDirective
    split
    · rfl
    · simp [ih]

namespace Parser

/-- Moves behind the marker that ends a directive. -/
def skipDirective (closes : DocToken → Bool) : Parser Unit := do
  let _ ← passTo (splitDirective closes) (splitDirective_append closes)

/-- Skips a marker of conditional compilation.  The current token is a dollar
    sign.  A condition goes up to its `$then`, an error text up to its `$end`;
    any other marker is a single word. -/
def directive : Parser Unit := do
  advance
  if ← isAt (.op .dollar) then advance
  let t ← current
  if t.kind = .keyword .if_ || t.kind = .keyword .elsif then skipDirective (·.isName "then")
  else if t.isName "error" then skipDirective (·.kind = .keyword .end_)
  else return ()

/-- Skips the body of a package.  The current token is `body`. -/
def packageBody : Parser Unit := do
  let start := (← current).span.start
  advance
  let _ ← passTo (splitBody 1) (splitBody_append 1)
  log (.skippedBody ⟨start, (← current).span.start⟩)

/-! ## Declarations -/

/-- A declaration, if one is recognised here.  The current token is its first. -/
def item? : Parser (Option Item) := do
  let t ← current
  match t.kind with
  | .op .dollar =>
    directive
    return none
  | .ident => return some (.field (← variableField))
  | .keyword .cursor => return some (.cursor (← cursor))
  | .keyword .function | .keyword .procedure => return some (.routine (← routine))
  | .keyword .pragma =>
    skipTo (.op .semicolon)
    return none
  | .keyword .type => return (← typeDecl?).map .type
  | .keyword .subtype => return some (.subtype (← subtype))
  | .op .semicolon | .eof => return none
  | kind =>
    log (.skippedDeclaration t.span.start kind)
    skipTo (.op .semicolon)
    return none

/-- The end of a package, where the current token is `end`: the offset behind it,
    or behind the name of the package that follows it.  Another name is an
    error. -/
def packageEnd (name : Ident) : Parser Nat := do
  let last := (← current).span.stop
  advance
  let t ← current
  if t.kind = .ident then
    if t.lexeme == name.name then return t.span.stop else fail (.packageNameMismatch name.name)
  else return last

/-- The declarations found so far, latest first, and where the last statement
    started. -/
structure Found where
  items : List Item
  last : Nat

/-- One more declaration, or the end of the package. -/
def itemStep (name : Ident) (found : Found) : Parser (Found ⊕ Found) := do
  let t ← current
  if t.kind = .keyword .end_ then
    return .inr { found with last := ← packageEnd name }
  else
    let item ← item?
    return .inl ⟨item.toList ++ found.items, t.span.start⟩

/-- The declarations of a package, and the offset where it ends.  The current
    token is the one that opens the package. -/
def items (name : Ident) : Parser (List Item × Nat) := do
  let start := (← current).span.start
  let found ← iterate (itemStep name) id ⟨[], start⟩
  return (found.items.reverse, found.last)

/-! ## Packages -/

/-- The name of a package, without that of its schema.  The parser stops at the
    word that opens the package, behind all clauses. -/
def packageName : Parser Ident := do
  let mut name ← name
  advance
  if ← isAt (.op .dot) then
    name ← nextName
    advance
  let _ ← takeTo fun t => t.kind = .keyword .is || t.kind = .keyword .as
  return name

/-- The package that a statement creates, whose first word is `create`; the
    current token follows the word `package`.  A body is skipped. -/
def package? (create : DocToken) : Parser (Option Package) := do
  if ← isAt (.keyword .body) then
    packageBody
    return none
  else
    let name ← packageName
    let (items, last) ← items name
    let package := Package.ofItems create.leadDoc name create.span.start last items
    log (.parsedPackage name.name package.itemCount)
    return some package

/-- Moves to the word `package` of the next statement that creates one, and gives
    the word `create` of that statement; none if there is no such statement. -/
def nextCreate? : Parser (Option DocToken) := do
  let before ← passTo (splitPackage none) (splitPackage_append none)
  return if ← atEnd then none else before.foldl pendingCreate none

/-- The packages found so far, latest first, and the word `create` of the
    statement at hand. -/
structure Search where
  create : DocToken
  packages : List Package

/-- The package at hand, and the way to the next one. -/
def packageStep (s : Search) : Parser (Search ⊕ List Package) := do
  let packages := (← package? s.create).toList ++ s.packages
  match ← nextCreate? with
  | some create => return .inl ⟨create, packages⟩
  | none => return .inr packages.reverse

/-- All packages from the current token on. -/
def packages : Parser (List Package) := do
  match ← nextCreate? with
  | some create => iterate packageStep (fun s => s.packages.reverse) ⟨create, []⟩
  | none => return []

end Parser

/-! ## Files -/

/-- What came of a source: the events that were logged, and the result. -/
structure Logged (α : Type) where
  events : List Event
  result : α

/-- Parses the packages of an input. -/
def Input.parse (i : Input) : Logged (Except ParseError SourceFile) :=
  match i.tokens, i.fault? with
  | [], some e => ⟨i.endArrival, .error (i.scanError e)⟩
  | ts, _ =>
    let run := Parser.packages.run i ts
    let start := match ts with
      | [] => i.endArrival
      | t :: _ => i.arrival t
    ⟨start ++ run.events, run.outcome.map fun (packages, _) => ⟨i.file, packages⟩⟩

/-- Parses the packages of a source.  The name of the file must not be empty. -/
def parse (file : String) (source : ByteArray) : Logged (Except ParseError SourceFile) :=
  if file.isEmpty then ⟨[], .error ⟨"", 0, .emptyFileName⟩⟩
  else
    match readSource source with
    | .error e =>
      let line := 1 + (source.toList.take e.pos).count 10
      ⟨[], .error ⟨file, line, .lexical e.fault⟩⟩
    | .ok text => (Input.ofText file text).parse

end PackageDoc
