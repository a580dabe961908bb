/-
  Productions that can fail.

  These are the productions that count parentheses or blocks, cut the query of a cursor out
  of the source or step into the parentheses of a bound, and those that they are parts of.

  Where the tokens fit the text that they were scanned from (`Fits`), all of them do what
  the productions of the parser do (`Fits.packages`): a text has no more tokens than bytes,
  so no counter runs over, and each token starts between characters.
-/
import PackageDoc.Proofs.Checked.Counters
import PackageDoc.Proofs.Checked.Parser
import PackageDoc.Proofs.Parser.Ensures
import PackageDoc.Proofs.Parser.Source

namespace PackageDoc.Checked

open PackageDoc.Parser Text

/-! ## Productions -/

namespace CheckedParser

/-- Moves to the token that ends a nested text outside parentheses, and gives the tokens
    passed over. -/
def takeNested (stop : TokenKind → Bool) : CheckedParser (List DocToken) :=
  passTo (splitNested? stop 0)

/-- A variable, a constant or an exception. -/
def variableField : CheckedParser Field := do
  let doc := (← current).leadDoc
  let name ← name
  advance
  if ← isAt (.keyword .exception) then return .ofException doc name
  let constant ← isAt (.keyword .constant)
  if constant then advance
  let start := (← current).span.start
  let tokens ← takeTo (·.kind = .op .semicolon)
  let (type, value) ← splitDefault? 0 tokens
  let typeIdent := Ident.ofTokens start (plainTokens type)
  let default? := Ident.ofTokens? (plainTokens value)
  let notNull := saysNotNull type
  return if constant then .ofConstant doc name typeIdent default? notNull
    else .ofVariable doc name typeIdent default? notNull

/-- The default value of a parameter. -/
def paramDefault : CheckedParser (Option Ident) := do
  if startsDefault (← current).kind then
    advance
    let tokens ← takeNested (· = .op .comma)
    if (← atEnd) && openDepth tokens != 0 then advance
    return Ident.ofTokens? (plainTokens tokens)
  else return none

/-- A parameter or a field of a record. -/
def param : CheckedParser Field := do
  let t ← current
  advance
  let mode ← passMode
  let word ← current
  if word.kind = .ident && word.lexeme == "nocopy" then advance
  let first ← current
  if !first.kind.isKeyword then require .ident
  let tokens ← takeNested fun kind => kind = .op .comma || startsDefault kind
  let type := Ident.ofTokens first.span.start (plainTokens tokens)
  let default? ← paramDefault
  return .ofParameter t.fieldDoc ⟨t.lexeme, t.span⟩ mode type default?

/-- One more field of a list. -/
def fieldStep (opening : Nat) (done : List Field) : CheckedParser (List Field ⊕ FieldList) := do
  let f ← param
  let t ← current
  if t.kind = .op .closeParen then
    return .inr ⟨opening, (f :: done).reverse, t.span.start⟩
  else
    require (.op .comma)
    return .inl (f :: done)

/-- A list of fields. -/
def fieldList : CheckedParser FieldList := do
  let opening := (← current).span.start
  let list ← iterate (fieldStep opening) (fun done => ⟨opening, done.reverse, opening⟩) []
  advance
  return list

/-- A list of fields, if one starts here. -/
def fieldList? : CheckedParser (Option FieldList) := do
  if ← isAt (.op .openParen) then return some (← fieldList) else return none

/-- A group in parentheses. -/
def group : CheckedParser (List DocToken) := do
  let start ← current
  advance
  let inner ← passTo (splitGroup? 1)
  if ← atEnd then return start :: inner
  else return start :: inner ++ [← current]

/-- A function or a procedure. -/
def routine : CheckedParser Routine := do
  let t ← current
  let name ← nextName
  advance
  let params ← fieldList?
  if t.kind = .keyword .procedure then
    skipTo (.op .semicolon)
    return { doc := t.leadDoc, name, params, kind := .procedure, result := none, pipelined := false
             deterministic := false, resultCache := false }
  else
    let result ← functionResult
    let clauses ← takeTo (·.kind = .op .semicolon)
    let has (k : Keyword) : Bool := clauses.any (·.kind = .keyword k)
    return { doc := t.leadDoc, name, params, kind := .function, result := some result
             pipelined := has .pipelined, deterministic := has .deterministic
             resultCache := has .resultCache }

/-- The query of a cursor, cut out of the source. -/
def cursorQuery : CheckedParser Sql := do
  let t ← current
  if t.kind = .op .semicolon then return ⟨t.span.start, ""⟩
  else
    skipTo (.keyword .is)
    advance
    let start := (← current).span.start
    skipTo (.op .semicolon)
    let stop := (← current).span.start
    return ⟨start, String.ofList (← slice? (← input).text start (max stop start))⟩

/-- A cursor. -/
def cursor : CheckedParser Cursor := do
  let doc := (← current).leadDoc
  let name ← nextName
  advance
  let params ← fieldList?
  let result ← cursorResult?
  let sql ← cursorQuery
  return { doc, name, params, result, sql }

/-- The bound of an array, if one is here.  It starts behind its parenthesis. -/
def arrayBound? : CheckedParser (Option Ident) := do
  let t ← current
  if t.kind = .op .openParen then
    let tokens ← group
    let body := groupBody (tokensText (plainTokens tokens)).toList
    let start ← add? t.span.start 1
    let stop := (← current).span.stop - 1
    return some ⟨String.ofList body, start, max stop start⟩
  else return none

/-- `varray(bound) of element`. -/
def arrayType : CheckedParser TypeBody := do
  advance
  let bound ← arrayBound?
  skipTo (.keyword .of)
  return .varray bound (← typeTail)

/-- `record (fields)`. -/
def recordType : CheckedParser TypeBody := do
  advance
  require (.op .openParen)
  return .record (← fieldList)

/-- The definition of a type, if it is of a kind that is documented. -/
def typeBody? (name : Ident) : CheckedParser (Option TypeBody) := do
  let t ← current
  match t.kind with
  | .keyword .table => return some (← tableType)
  | .keyword .varray => return some (← arrayType)
  | .keyword .record => return some (← recordType)
  | .keyword .ref => return some (← refCursorType)
  | kind =>
    log (.skippedType name.name kind)
    skipTo (.op .semicolon)
    return none

/-- A type, if it is of a kind that is documented. -/
def typeDecl? : CheckedParser (Option TypeDecl) := do
  let doc := (← current).leadDoc
  let name ← nextName
  advance
  require (.keyword .is)
  advance
  return (← typeBody? name).map fun body => { doc, name, body }

/-- Skips the body of a package. -/
def packageBody : CheckedParser Unit := do
  let start := (← current).span.start
  advance
  let _ ← passTo (splitBody? 1)
  log (.skippedBody ⟨start, (← current).span.start⟩)

/-- A declaration, if one is recognised here. -/
def item? : CheckedParser (Option Item) := do
  let t ← current
  match t.kind with
  | .op .dollar =>
    directive
    return none
  | .ident => return some (.field (← variableField))
  | .keyword .cursor => return some (.cursor (← cursor))
  | .keyword .function | .keyword .procedure => return some (.routine (← routine))
  | .keyword .pragma =>
    skipTo (.op .semicolon)
    return none
  | .keyword .type => return (← typeDecl?).map .type
  | .keyword .subtype => return some (.subtype (← subtype))
  | .op .semicolon | .eof => return none
  | kind =>
    log (.skippedDeclaration t.span.start kind)
    skipTo (.op .semicolon)
    return none

/-- One more declaration, or the end of the package. -/
def itemStep (name : Ident) (found : Found) : CheckedParser (Found ⊕ Found) := do
  let t ← current
  if t.kind = .keyword .end_ then
    return .inr { found with last := ← packageEnd name }
  else
    let item ← item?
    return .inl ⟨item.toList ++ found.items, t.span.start⟩

/-- The declarations of a package, and the offset where it ends. -/
def items (name : Ident) : CheckedParser (List Item × Nat) := do
  let start := (← current).span.start
  let found ← iterate (itemStep name) id ⟨[], start⟩
  return (found.items.reverse, found.last)

/-- The package that a statement creates. -/
def package? (create : DocToken) : CheckedParser (Option Package) := do
  if ← isAt (.keyword .body) then
    packageBody
    return none
  else
    let name ← packageName
    let (items, last) ← items name
    let package := Package.ofItems create.leadDoc name create.span.start last items
    log (.parsedPackage name.name package.itemCount)
    return some package

/-- The package at hand, and the way to the next one. -/
def packageStep (s : Search) : CheckedParser (Search ⊕ List Package) := do
  let packages := (← package? s.create).toList ++ s.packages
  match ← nextCreate? with
  | some create => return .inl ⟨create, packages⟩
  | none => return .inr packages.reverse

/-- All packages from the current token on. -/
def packages : CheckedParser (List Package) := do
  match ← nextCreate? with
  | some create => iterate packageStep (fun s => s.packages.reverse) ⟨create, []⟩
  | none => return []

end CheckedParser

/-! ## Inputs that fit -/

/-- An input that was scanned from a text whose offsets have 32 bits. -/
structure Fits (i : Input) : Prop extends Input.Scanned i where
  size : byteLength i.text ≤ maxOffset
  eof_cut : ∃ front back, i.text = front ++ back ∧ i.eof.span.start = byteLength front

theorem length_le_of_scans {o : Nat} {cs rest : List Char} {ts : List Token}
    (h : Scans o cs ts rest) : ts.length ≤ byteLength cs := by
  induction h with
  | nil => exact Nat.zero_le _
  | cons hgap hreads hmore ih =>
    have hpos := byteLength_pos hreads.piece_ne_nil
    simp only [List.length_cons, byteLength_append]
    omega

namespace Fits

variable {i : Input} (hi : Fits i)
include hi

theorem length_tokens : i.tokens.length ≤ maxOffset := by
  obtain ⟨rest, hscans, -⟩ := hi.scans
  have hraw := length_le_of_scans hscans
  have hfilter := List.length_filter_le (fun t : Token => decide (t.kind ≠ .comment)) i.raw
  rw [← hi.plainTokens_eq, plainTokens, List.length_map] at hfilter
  exact hfilter.trans (hraw.trans hi.size)

/-- Behind a first token there are fewer. -/
theorem length_tail {ts : List DocToken} (hts : ts <:+ i.tokens.tail) :
    1 + ts.length ≤ maxOffset := by
  have hlength := hi.length_tokens
  have htail := hts.length_le
  have hone : 1 ≤ maxOffset := by decide
  rw [List.length_tail] at htail
  omega

/-- A token stands in the text, and it is not empty. -/
theorem position {t : DocToken} (ht : t ∈ i.tokens) :
    ∃ front back, i.text = front ++ back ∧ t.span.start = byteLength front ∧
      1 ≤ byteLength back := by
  obtain ⟨rest, hscans, -⟩ := hi.scans
  obtain ⟨before, after, hraw⟩ := List.append_of_mem (Input.Scanned.mem_raw ht)
  rw [hraw] at hscans
  obtain ⟨front, back, htext, hstart, -, hback⟩ := hscans.position
  rw [Nat.zero_add] at hstart
  have hlength := length_le_of_scans hback
  rw [List.length_cons] at hlength
  exact ⟨front, back, htext, hstart, by omega⟩

/-- A token starts where the text can be cut. -/
theorem cut {t : DocToken} (ht : t ∈ i.tokens ∨ t = i.eof) :
    ∃ front back, i.text = front ++ back ∧ t.span.start = byteLength front := by
  rcases ht with ht | rfl
  · obtain ⟨front, back, htext, hstart, -⟩ := hi.position ht
    exact ⟨front, back, htext, hstart⟩
  · exact hi.eof_cut

/-- The text from one token to another, if that is behind it. -/
theorem slice?_tokens {t u : DocToken} (ht : t ∈ i.tokens ∨ t = i.eof)
    (hu : u ∈ i.tokens ∨ u = i.eof) :
    slice? i.text t.span.start (max u.span.start t.span.start) =
      some (slice i.text t.span.start u.span.start) := by
  obtain ⟨front, back, htext, hstart⟩ := hi.cut ht
  obtain ⟨front', back', htext', hstart'⟩ := hi.cut hu
  have hcut : isCut t.span.start i.text = true := by rw [htext, hstart, isCut_append]
  have hcut' : isCut u.span.start i.text = true := by rw [htext', hstart', isCut_append]
  have hsize : byteLength i.text = byteLength front + byteLength back := by
    rw [htext, byteLength_append]
  have hsize' : byteLength i.text = byteLength front' + byteLength back' := by
    rw [htext', byteLength_append]
  have hmax : max u.span.start t.span.start - t.span.start = u.span.start - t.span.start := by omega
  have hslice : slice i.text t.span.start (max u.span.start t.span.start) =
      slice i.text t.span.start u.span.start := by rw [slice, hmax, slice]
  rw [← hslice]
  refine slice?_eq (Nat.le_max_right _ _) (by omega) hcut ?_
  rcases Nat.le_total u.span.start t.span.start with hle | hle
  · rwa [Nat.max_eq_right hle]
  · rwa [Nat.max_eq_left hle]

/-! ## What they do there -/

omit hi in
/-- The current token is one of the input, or its end. -/
theorem current {α : Type} {g : DocToken → CheckedParser α} {f : DocToken → Parser α}
    (h : ∀ t, t ∈ i.tokens ∨ t = i.eof → Agrees i i.tokens (g t) (f t)) :
    Agrees i i.tokens (liftM Parser.current >>= g) (Parser.current >>= f) :=
  (Agrees.lift _).bind_of (fun _ _ _ hts hreturns => Ensures.current.result hts hreturns) h

theorem takeNested (stop : TokenKind → Bool) :
    Agrees i i.tokens (CheckedParser.takeNested stop) (Parser.takeNested stop) := by
  refine .passTo fun ts hts => splitNested?_eq ?_
  have hlength := hts.length_le.trans hi.length_tokens
  omega

theorem variableField : Agrees i i.tokens CheckedParser.variableField Parser.variableField := by
  refine .lifted fun _ => .lifted fun _ => .lifted fun _ => ?_
  refine .lifted fun _ => .ite (fun _ => .pure _) fun _ => ?_
  refine .lifted fun _ => .when (.lift _) (.lifted fun _ => ?_)
  refine (Agrees.lift _).bind_of (fun _ _ _ hts h => (Ensures.takeTo _).result hts h) ?_
  intro tokens htokens
  have hlength := htokens.length_le.trans hi.length_tokens
  exact .some (splitDefault?_eq (by omega)) (.pure _)

theorem paramDefault : Agrees i i.tokens CheckedParser.paramDefault Parser.paramDefault := by
  refine .lifted fun _ => .ite (fun _ => ?_) fun _ => .pure _
  refine .lifted fun _ => (hi.takeNested _).bind fun _ => .lifted fun _ => ?_
  exact .when (.lift _) (.pure _)

theorem param : Agrees i i.tokens CheckedParser.param Parser.param := by
  refine .lifted fun _ => .lifted fun _ => .lifted fun _ => ?_
  refine .lifted fun _ => .when (.lift _) (.lifted fun _ => ?_)
  refine .when (.lift _) ((hi.takeNested _).bind fun _ => ?_)
  exact hi.paramDefault.bind fun _ => .pure _

theorem fieldStep (opening : Nat) (done : List Field) :
    Agrees i i.tokens (CheckedParser.fieldStep opening done) (Parser.fieldStep opening done) := by
  refine hi.param.bind fun _ => .lifted fun _ => .ite (fun _ => .pure _) fun _ => ?_
  exact .lifted fun _ => .pure _

theorem fieldList : Agrees i i.tokens CheckedParser.fieldList Parser.fieldList := by
  refine .lifted fun _ => (Agrees.iterate (hi.fieldStep _) _).bind fun _ => ?_
  exact .lifted fun _ => .pure _

theorem fieldList? : Agrees i i.tokens CheckedParser.fieldList? Parser.fieldList? :=
  Agrees.lifted fun _ => .ite (fun _ => hi.fieldList.bind fun _ => .pure _) fun _ => .pure _

theorem group : Agrees i i.tokens CheckedParser.group Parser.group := by
  refine .lifted fun _ => .advance (.bind (.passTo fun ts hts => ?_) fun _ => ?_)
  · exact splitGroup?_eq (hi.length_tail hts)
  · exact .lifted fun _ => .ite (fun _ => .pure _) fun _ => .lifted fun _ => .pure _

theorem routine : Agrees i i.tokens CheckedParser.routine Parser.routine := by
  refine .lifted fun _ => .lifted fun _ => .lifted fun _ => ?_
  refine hi.fieldList?.bind fun _ => .ite (fun _ => .lifted fun _ => .pure _) fun _ => ?_
  exact .lifted fun _ => .lifted fun _ => .pure _

theorem cursorQuery : Agrees i i.tokens CheckedParser.cursorQuery Parser.cursorQuery := by
  refine .lifted fun _ => .ite (fun _ => .pure _) fun _ => ?_
  refine .lifted fun _ => .lifted fun _ => ?_
  refine current fun t ht => .lifted fun _ => current fun u hu => ?_
  refine (Agrees.lift _).bind_of (fun _ _ _ hts h => Ensures.input.result hts h) ?_
  rintro _ rfl
  exact .some (hi.slice?_tokens ht hu) (.pure _)

theorem cursor : Agrees i i.tokens CheckedParser.cursor Parser.cursor := by
  refine .lifted fun _ => .lifted fun _ => .lifted fun _ => ?_
  refine hi.fieldList?.bind fun _ => .lifted fun _ => ?_
  exact hi.cursorQuery.bind fun _ => .pure _

/-- An opening parenthesis is no end of the input, so there is a byte behind its offset. -/
theorem arrayBound? : Agrees i i.tokens CheckedParser.arrayBound? Parser.arrayBound? := by
  refine current fun t ht => ?_
  refine .ite (fun hopen => hi.group.bind fun _ => .some (add?_eq ?_) ?_) fun _ => .pure _
  · rcases ht with ht | rfl
    · obtain ⟨front, back, htext, hstart, hback⟩ := hi.position ht
      have hsize := hi.size
      rw [htext, byteLength_append] at hsize
      omega
    · rw [hi.eof_kind] at hopen
      cases hopen
  · exact .lifted fun _ => .pure _

theorem arrayType : Agrees i i.tokens CheckedParser.arrayType Parser.arrayType := by
  refine .lifted fun _ => hi.arrayBound?.bind fun _ => .lifted fun _ => ?_
  exact .lifted fun _ => .pure _

theorem recordType : Agrees i i.tokens CheckedParser.recordType Parser.recordType := by
  refine .lifted fun _ => .lifted fun _ => ?_
  exact hi.fieldList.bind fun _ => .pure _

theorem typeBody? (x : Ident) :
    Agrees i i.tokens (CheckedParser.typeBody? x) (Parser.typeBody? x) := by
  refine .lifted fun t => ?_
  generalize t.kind = kind
  cases kind with
  | keyword k =>
    cases k
    case table => exact .lifted fun _ => .pure _
    case varray => exact hi.arrayType.bind fun _ => .pure _
    case record => exact hi.recordType.bind fun _ => .pure _
    case ref => exact .lifted fun _ => .pure _
    all_goals exact .lifted fun _ => .lifted fun _ => .pure _
  | _ => exact .lifted fun _ => .lifted fun _ => .pure _

theorem typeDecl? : Agrees i i.tokens CheckedParser.typeDecl? Parser.typeDecl? := by
  refine .lifted fun _ => .lifted fun _ => .lifted fun _ => ?_
  refine .lifted fun _ => .lifted fun _ => ?_
  exact (hi.typeBody? _).bind fun _ => .pure _

theorem packageBody : Agrees i i.tokens CheckedParser.packageBody Parser.packageBody := by
  refine .lifted fun _ => .advance (.bind (.passTo fun ts hts => ?_) fun _ => ?_)
  · exact splitBody?_eq (Nat.le_refl 1) (hi.length_tail hts)
  · exact .lifted fun _ => .lift _

theorem item? : Agrees i i.tokens CheckedParser.item? Parser.item? := by
  refine .lifted fun t => ?_
  generalize t.kind = kind
  cases kind with
  | ident => exact hi.variableField.bind fun _ => .pure _
  | eof => exact .pure _
  | op o =>
    cases o
    case dollar => exact .lifted fun _ => .pure _
    case semicolon => exact .pure _
    all_goals exact .lifted fun _ => .lifted fun _ => .pure _
  | keyword k =>
    cases k
    case cursor => exact hi.cursor.bind fun _ => .pure _
    case function => exact hi.routine.bind fun _ => .pure _
    case procedure => exact hi.routine.bind fun _ => .pure _
    case pragma => exact .lifted fun _ => .pure _
    case type => exact hi.typeDecl?.bind fun _ => .pure _
    case subtype => exact .lifted fun _ => .pure _
    all_goals exact .lifted fun _ => .lifted fun _ => .pure _
  | _ => exact .lifted fun _ => .lifted fun _ => .pure _

theorem itemStep (x : Ident) (found : Found) :
    Agrees i i.tokens (CheckedParser.itemStep x found) (Parser.itemStep x found) := by
  refine .lifted fun _ => .ite (fun _ => .lifted fun _ => .pure _) fun _ => ?_
  exact hi.item?.bind fun _ => .pure _

theorem items (x : Ident) : Agrees i i.tokens (CheckedParser.items x) (Parser.items x) :=
  Agrees.lifted fun _ => (Agrees.iterate (hi.itemStep x) _).bind fun _ => .pure _

theorem package? (create : DocToken) :
    Agrees i i.tokens (CheckedParser.package? create) (Parser.package? create) := by
  refine .lifted fun _ => .ite (fun _ => hi.packageBody.bind fun _ => .pure _) fun _ => ?_
  refine .lifted fun x => (hi.items x).bind fun _ => ?_
  exact .lifted fun _ => .pure _

theorem packageStep (s : Search) :
    Agrees i i.tokens (CheckedParser.packageStep s) (Parser.packageStep s) := by
  refine (hi.package? _).bind fun _ => .lifted fun create? => ?_
  cases create? with
  | some create => exact .pure _
  | none => exact .pure _

/-- **All packages are read without fail.** -/
theorem packages : Agrees i i.tokens CheckedParser.packages Parser.packages := by
  refine .lifted fun create? => ?_
  cases create? with
  | some create => exact .iterate hi.packageStep _
  | none => exact .pure _

end Fits

end PackageDoc.Checked
