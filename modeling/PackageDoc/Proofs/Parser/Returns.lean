/-
  What the productions return.

  For each production there is an equivalence that tells, in terms of its parts,
  what it returns and what it leaves.

  The search for packages takes what `splitPackage` splits off.  It stops at the word
  `package` behind `create` (`splitPackage_eq`), and where one of the words is missing it
  goes on behind (`splitPackage_append_of_nil`).
-/
import Mathlib.Tactic.ByContra
import PackageDoc.Parser.Package
import PackageDoc.Proofs.Parser.Outcome

namespace PackageDoc

/-! ## Files -/

namespace Input

variable {i : Input}

/-- A file is parsed from its first token on, unless a fault keeps that from
    being reached. -/
theorem parse_result (h : i.tokens = [] → i.fault? = none) :
    i.parse.result = (Parser.packages.outcome i i.tokens).map fun x => ⟨i.file, x.1⟩ := by
  cases hts : i.tokens with
  | nil => simp only [Input.parse, hts, h hts, Parser.outcome]
  | cons t ts => simp only [Input.parse, hts, Parser.outcome]

theorem parse_eq_ok {f : SourceFile} :
    i.parse.result = .ok f ↔ (i.tokens = [] → i.fault? = none) ∧ f.name = i.file ∧
      ∃ rest, Parser.packages.Returns i i.tokens f.packages rest := by
  by_cases h : i.tokens = [] → i.fault? = none
  · rw [parse_result h, and_iff_right h]
    simp only [Parser.Returns]
    cases Parser.packages.outcome i i.tokens with
    | error e => simp [Except.map]
    | ok x =>
      obtain ⟨name, packages⟩ := f
      obtain ⟨ps, rest⟩ := x
      simp [Except.map, eq_comm]
  · obtain ⟨hnil, hfault⟩ := Classical.not_imp.1 h
    obtain ⟨e, he⟩ := Option.ne_none_iff_exists'.1 hfault
    simp [Input.parse, hnil, he]

end Input

namespace Parser

variable {i : Input} {ts rest : List DocToken}

/-- A token that is not the end of the input is the first one. -/
theorem cons_of_current {kind : TokenKind} (heof : i.eof.kind = .eof) (h : (i.current ts).kind = kind)
    (hkind : kind ≠ .eof) : ∃ t us, ts = t :: us ∧ t.kind = kind := by
  cases ts with
  | nil => exact absurd (h.symm.trans heof) hkind
  | cons t us => exact ⟨t, us, rfl, h⟩

/-! ## Groups in parentheses -/

/-- A nested text stops at a closing parenthesis, or at a token that ends it. -/
theorem kind_of_splitNested {stop : TokenKind → Bool} {depth : Nat} {ts us : List DocToken}
    {u : DocToken} (h : (splitNested stop depth ts).2 = u :: us) :
    u.kind = .op .closeParen ∨ stop u.kind = true := by
  induction ts generalizing depth with
  | nil => cases h
  | cons t ts ih =>
    unfold splitNested at h
    split at h
    · rename_i hstop
      cases h
      simp only [Bool.and_eq_true, decide_eq_true_eq, Bool.or_eq_true] at hstop
      exact hstop.2
    · exact ih h

theorem returns_group {t : DocToken} {g : List DocToken} :
    Returns group i (t :: ts) g rest ↔ Reaches i [t] ts ∧
      rest = (splitNested (fun _ => false) 0 ts).2 ∧
      g = t :: (splitNested (fun _ => false) 0 ts).1 ++ rest.head?.toList ∧
      Reaches i (splitNested (fun _ => false) 0 ts).1 rest := by
  simp only [group, takeNested, returns_current_bind, returns_advance_bind, returns_passTo_bind,
    returns_atEnd_bind, returns_ite, returns_pure, Input.current, List.headD_cons, List.tail_cons,
    List.take_succ_cons, List.take_zero]
  cases (splitNested (fun _ => false) 0 ts).2 with
  | nil => grind
  | cons u us => grind

/-! ## Variables -/

/-- The type of a variable starts behind its name, that of a constant behind the word
    `constant`; both go up to the semicolon. -/
theorem returns_variableField {f : Field} :
    Returns variableField i ts f rest ↔ (i.current ts).kind = .ident ∧
      Reaches i (ts.take 1) ts.tail ∧
      if (i.current ts.tail).kind = .keyword .exception then
        f = .ofException (i.current ts).leadDoc ⟨(i.current ts).lexeme, (i.current ts).span⟩ ∧
          rest = ts.tail
      else ∃ mid tokens,
        (if (i.current ts.tail).kind = .keyword .constant then
          Reaches i (ts.tail.take 1) ts.tail.tail ∧ mid = ts.tail.tail
        else mid = ts.tail) ∧
        Returns (takeTo (·.kind = .op .semicolon)) i mid tokens rest ∧
        f = (if (i.current ts.tail).kind = .keyword .constant then Field.ofConstant
            else Field.ofVariable)
          (i.current ts).leadDoc ⟨(i.current ts).lexeme, (i.current ts).span⟩
          (.ofTokens (i.current mid).span.start (plainTokens (splitDefault 0 tokens).1))
          (Ident.ofTokens? (plainTokens (splitDefault 0 tokens).2))
          (saysNotNull (splitDefault 0 tokens).1) := by
  simp only [variableField, returns_current_bind, returns_name_bind, returns_advance_bind,
    returns_isAt_bind, returns_ite, returns_bind (p := takeTo _), returns_pure, decide_eq_true_eq]
  grind

/-! ## Lists of fields -/

/-- A round of a list: a field, and what follows it. -/
theorem returns_fieldStep {opening : Nat} {done : List Field} {x : List Field ⊕ FieldList} :
    Returns (fieldStep opening done) i ts x rest ↔ ∃ f, Returns param i ts f rest ∧
      if (i.current rest).kind = .op .closeParen then
        x = .inr ⟨opening, (f :: done).reverse, (i.current rest).span.start⟩
      else (i.current rest).kind = .op .comma ∧ x = .inl (f :: done) := by
  simp only [fieldStep, returns_bind (p := param), returns_current_bind, returns_ite,
    returns_require_bind, returns_pure]
  grind

/-- A list is read where a parenthesis opens it. -/
theorem returns_fieldList? {l? : Option FieldList} :
    Returns fieldList? i ts l? rest ↔
      if (i.current ts).kind = .op .openParen then ∃ l, Returns fieldList i ts l rest ∧ l? = some l
      else l? = none ∧ rest = ts := by
  simp only [fieldList?, returns_isAt_bind, returns_ite, returns_bind (p := fieldList),
    returns_pure, decide_eq_true_eq]
  grind

/-! ## Texts up to the end of a declaration -/

theorem returns_typeTail {x : Ident} :
    Returns typeTail i ts x rest ↔ Reaches i (ts.take 1) ts.tail ∧
      Reaches i (ts.tail.takeWhile fun t => !decide (t.kind = .op .semicolon))
        (ts.tail.dropWhile fun t => !decide (t.kind = .op .semicolon)) ∧
      x = .ofTokens (i.current ts.tail).span.start
        (plainTokens (ts.tail.takeWhile fun t => !decide (t.kind = .op .semicolon))) ∧
      rest = ts.tail.dropWhile fun t => !decide (t.kind = .op .semicolon) := by
  simp only [typeTail, returns_advance_bind, returns_current_bind, returns_takeTo_bind,
    returns_pure]

theorem returns_functionResult {x : Ident} :
    Returns functionResult i ts x rest ↔ (i.current ts).kind = .keyword .return_ ∧
      Reaches i (ts.take 1) ts.tail ∧
      Reaches i (ts.tail.takeWhile (!endsResult ·)) (ts.tail.dropWhile (!endsResult ·)) ∧
      x = .ofTokens (i.current ts.tail).span.start
        (plainTokens (ts.tail.takeWhile (!endsResult ·))) ∧
      rest = ts.tail.dropWhile (!endsResult ·) := by
  simp only [functionResult, returns_require_bind, returns_advance_bind, returns_current_bind,
    returns_takeTo_bind, returns_pure]

/-! ## Subtypes and routines -/

theorem returns_subtype {s : Subtype} :
    Returns subtype i ts s rest ↔ Reaches i (ts.take 1) ts.tail ∧
      (i.current ts.tail).kind = .ident ∧ Reaches i (ts.tail.take 1) ts.tail.tail ∧
      (i.current ts.tail.tail).kind = .keyword .is ∧
      ∃ base, Returns typeTail i ts.tail.tail base rest ∧
        s = ⟨(i.current ts).leadDoc, ⟨(i.current ts.tail).lexeme, (i.current ts.tail).span⟩, base⟩ := by
  simp only [subtype, returns_current_bind, returns_nextName_bind, returns_advance_bind,
    returns_require_bind, returns_bind (p := typeTail), returns_pure]
  grind

/-- A procedure goes up to the semicolon behind its parameters, and a function to the one
    behind its clauses. -/
theorem returns_routine {r : Routine} :
    Returns routine i ts r rest ↔ Reaches i (ts.take 1) ts.tail ∧
      (i.current ts.tail).kind = .ident ∧ Reaches i (ts.tail.take 1) ts.tail.tail ∧
      ∃ params mid, Returns fieldList? i ts.tail.tail params mid ∧
        if (i.current ts).kind = .keyword .procedure then
          Returns (skipTo (.op .semicolon)) i mid () rest ∧
            r = { doc := (i.current ts).leadDoc
                  name := ⟨(i.current ts.tail).lexeme, (i.current ts.tail).span⟩
                  params, kind := .procedure, result := none, pipelined := false
                  deterministic := false, resultCache := false }
        else ∃ result mid' clauses, Returns functionResult i mid result mid' ∧
          Returns (takeTo (·.kind = .op .semicolon)) i mid' clauses rest ∧
          r = { doc := (i.current ts).leadDoc
                name := ⟨(i.current ts.tail).lexeme, (i.current ts.tail).span⟩
                params, kind := .function, result := some result
                pipelined := clauses.any (·.kind = .keyword .pipelined)
                deterministic := clauses.any (·.kind = .keyword .deterministic)
                resultCache := clauses.any (·.kind = .keyword .resultCache) } := by
  simp only [routine, returns_current_bind, returns_nextName_bind, returns_advance_bind,
    returns_ite, returns_bind (p := fieldList?), returns_bind (p := skipTo _),
    returns_bind (p := functionResult), returns_bind (p := takeTo _), returns_pure]
  grind

/-! ## Cursors -/

theorem returns_cursorResult? {x? : Option Ident} :
    Returns cursorResult? i ts x? rest ↔
      if (i.current ts).kind = .keyword .return_ then
        Reaches i (ts.take 1) ts.tail ∧ ∃ row,
          Returns (takeTo fun t => t.kind = .keyword .is || t.kind = .op .semicolon) i ts.tail row
            rest ∧
          x? = some (.ofTokens (i.current ts.tail).span.start (plainTokens row))
      else x? = none ∧ rest = ts := by
  simp only [cursorResult?, returns_isAt_bind, returns_ite, returns_advance_bind,
    returns_current_bind, returns_bind (p := takeTo _), returns_pure, decide_eq_true_eq]
  grind

/-- A query goes from behind `is` up to the semicolon. -/
theorem returns_cursorQuery {sql : Sql} :
    Returns cursorQuery i ts sql rest ↔
      if (i.current ts).kind = .op .semicolon then sql = ⟨(i.current ts).span.start, ""⟩ ∧ rest = ts
      else ∃ opened, Returns (skipTo (.keyword .is)) i ts () opened ∧
        Reaches i (opened.take 1) opened.tail ∧
        Returns (skipTo (.op .semicolon)) i opened.tail () rest ∧
        sql = ⟨(i.current opened.tail).span.start, String.ofList (Text.slice i.text
          (i.current opened.tail).span.start (i.current rest).span.start)⟩ := by
  simp only [cursorQuery, returns_current_bind, returns_ite, returns_bind (p := skipTo _),
    returns_advance_bind, returns_input_bind, returns_pure]
  grind

theorem returns_cursor {c : Cursor} :
    Returns cursor i ts c rest ↔ Reaches i (ts.take 1) ts.tail ∧
      (i.current ts.tail).kind = .ident ∧ Reaches i (ts.tail.take 1) ts.tail.tail ∧
      ∃ params mid result mid' sql, Returns fieldList? i ts.tail.tail params mid ∧
        Returns cursorResult? i mid result mid' ∧ Returns cursorQuery i mid' sql rest ∧
        c = ⟨(i.current ts).leadDoc, ⟨(i.current ts.tail).lexeme, (i.current ts.tail).span⟩,
          params, result, sql⟩ := by
  simp only [cursor, returns_current_bind, returns_nextName_bind, returns_advance_bind,
    returns_bind (p := fieldList?), returns_bind (p := cursorResult?),
    returns_bind (p := cursorQuery), returns_pure]
  grind

/-! ## Types -/

/-- The bound of an array is a group in parentheses, without them. -/
theorem returns_arrayBound? {x? : Option Ident} :
    Returns arrayBound? i ts x? rest ↔
      if (i.current ts).kind = .op .openParen then ∃ g, Returns group i ts g rest ∧
        x? = some ⟨String.ofList (groupBody (tokensText (plainTokens g)).toList),
          (i.current ts).span.start + 1,
          max ((i.current rest).span.stop - 1) ((i.current ts).span.start + 1)⟩
      else x? = none ∧ rest = ts := by
  simp only [arrayBound?, returns_current_bind, returns_ite, returns_bind (p := group),
    returns_pure]
  grind

section
variable {body : TypeBody}

theorem returns_tableType :
    Returns tableType i ts body rest ↔ Reaches i (ts.take 1) ts.tail ∧ ∃ opened element,
      Returns (skipTo (.keyword .of)) i ts.tail () opened ∧
      Returns typeTail i opened element rest ∧ body = .table element := by
  simp only [tableType, returns_advance_bind, returns_bind (p := skipTo _),
    returns_bind (p := typeTail), returns_pure]
  grind

theorem returns_arrayType :
    Returns arrayType i ts body rest ↔ Reaches i (ts.take 1) ts.tail ∧
      ∃ bound closing opened element, Returns arrayBound? i ts.tail bound closing ∧
        Returns (skipTo (.keyword .of)) i closing () opened ∧
        Returns typeTail i opened element rest ∧ body = .varray bound element := by
  simp only [arrayType, returns_advance_bind, returns_bind (p := arrayBound?),
    returns_bind (p := skipTo _), returns_bind (p := typeTail), returns_pure]
  grind

theorem returns_recordType :
    Returns recordType i ts body rest ↔ Reaches i (ts.take 1) ts.tail ∧
      (i.current ts.tail).kind = .op .openParen ∧
      ∃ l, Returns fieldList i ts.tail l rest ∧ body = .record l := by
  simp only [recordType, returns_advance_bind, returns_require_bind, returns_bind (p := fieldList),
    returns_pure]
  grind

theorem returns_refCursorType :
    Returns refCursorType i ts body rest ↔ Reaches i (ts.take 1) ts.tail ∧
      (i.current ts.tail).kind = .keyword .cursor ∧ Reaches i (ts.tail.take 1) ts.tail.tail ∧
      if (i.current ts.tail.tail).kind = .op .semicolon then
        body = .refCursor none ∧ rest = ts.tail.tail
      else (i.current ts.tail.tail).kind = .keyword .return_ ∧
        ∃ x, Returns typeTail i ts.tail.tail x rest ∧ body = .refCursor (some x) := by
  simp only [refCursorType, returns_advance_bind, returns_require_bind, returns_isAt_bind,
    returns_ite, returns_bind (p := typeTail), returns_pure, decide_eq_true_eq]
  grind

end

theorem returns_typeDecl? {t? : Option TypeDecl} :
    Returns typeDecl? i ts t? rest ↔ Reaches i (ts.take 1) ts.tail ∧
      (i.current ts.tail).kind = .ident ∧ Reaches i (ts.tail.take 1) ts.tail.tail ∧
      (i.current ts.tail.tail).kind = .keyword .is ∧
      Reaches i (ts.tail.tail.take 1) ts.tail.tail.tail ∧
      ∃ body?, Returns (typeBody? ⟨(i.current ts.tail).lexeme, (i.current ts.tail).span⟩) i
          ts.tail.tail.tail body? rest ∧
        t? = body?.map fun body => ⟨(i.current ts).leadDoc,
          ⟨(i.current ts.tail).lexeme, (i.current ts.tail).span⟩, body⟩ := by
  simp only [typeDecl?, returns_current_bind, returns_nextName_bind, returns_advance_bind,
    returns_require_bind, returns_bind (p := typeBody? _), returns_pure]
  grind

/-! ## The word that a package starts at -/

section
variable {create? : Option DocToken}

theorem foldl_pendingCreate_of_semicolon
    (h : ts.getLast?.map DocToken.kind = some (.op .semicolon)) :
    ts.foldl pendingCreate create? = none := by
  obtain ⟨t, ht, hkind⟩ := Option.map_eq_some_iff.1 h
  obtain ⟨before, rfl⟩ := List.getLast?_eq_some_iff.1 ht
  simp [pendingCreate, hkind]

/-- Up to its semicolon a statement is the one that its first word creates. -/
theorem foldl_pendingCreate_eq
    (h : ∀ d ∈ ts, d.kind ≠ .op .semicolon ∧ d.kind ≠ .keyword .create) :
    ts.foldl pendingCreate create? = create? := by
  induction ts with
  | nil => rfl
  | cons d ts ih =>
    have hd : pendingCreate create? d = create? := by
      obtain ⟨hsemicolon, hcreate⟩ := h d (by simp)
      unfold pendingCreate
      split <;> simp_all
    rw [List.foldl_cons, hd]
    exact ih fun d hd => h d (by simp [hd])

theorem pendingCreate_none {d : DocToken} (h : d.kind ≠ .keyword .create) :
    pendingCreate none d = none := by
  unfold pendingCreate
  split <;> simp_all

theorem foldl_pendingCreate_none (h : ∀ d ∈ ts, d.kind ≠ .keyword .create) :
    ts.foldl pendingCreate none = none := by
  induction ts with
  | nil => rfl
  | cons d ts ih =>
    rw [List.foldl_cons, pendingCreate_none (h d (by simp))]
    exact ih fun d hd => h d (by simp [hd])

theorem isSome_foldl_pendingCreate {create : DocToken}
    (h : ∀ d ∈ ts, d.kind ≠ .op .semicolon) :
    (ts.foldl pendingCreate (some create)).isSome = true := by
  induction ts generalizing create with
  | nil => rfl
  | cons d ts ih =>
    obtain ⟨create', hcreate'⟩ : ∃ create', pendingCreate (some create) d = some create' := by
      have hd := h d (by simp)
      unfold pendingCreate
      split
      · exact ⟨d, rfl⟩
      · rename_i hkind
        exact absurd hkind hd
      · exact ⟨create, rfl⟩
    rw [List.foldl_cons, hcreate']
    exact ih fun d hd => h d (by simp [hd])

/-- The word `package` is found behind a word `create`. -/
theorem splitPackage_eq {before : List DocToken} {p : DocToken}
    (hbefore : ∀ d ∈ before, d.kind ≠ .keyword .package) (hp : p.kind = .keyword .package)
    (hcreate : (before.foldl pendingCreate create?).isSome = true) :
    splitPackage create? (before ++ p :: rest) = (before, p :: rest) := by
  induction before generalizing create? with
  | nil =>
    have hcreate : create?.isSome = true := hcreate
    simp [splitPackage, hp, hcreate]
  | cons d before ih =>
    have hd := hbefore d (by simp)
    rw [List.cons_append, splitPackage, ih (fun d hd => hbefore d (by simp [hd])) hcreate]
    simp [hd]

theorem splitPackage_of_no_package (h : ∀ d ∈ ts, d.kind ≠ .keyword .package) :
    splitPackage create? ts = (ts, []) := by
  induction ts generalizing create? with
  | nil => rfl
  | cons d ts ih => simp [splitPackage, h d (by simp), ih fun d hd => h d (by simp [hd])]

theorem splitPackage_of_no_create (h : ∀ d ∈ ts, d.kind ≠ .keyword .create) :
    splitPackage none ts = (ts, []) := by
  induction ts with
  | nil => rfl
  | cons d ts ih =>
    rw [splitPackage, pendingCreate_none (h d (by simp)), ih fun d hd => h d (by simp [hd])]
    simp

/-- Where there is no package, the search goes on behind. -/
theorem splitPackage_append_of_nil (h : (splitPackage create? ts).2 = []) (more : List DocToken) :
    splitPackage create? (ts ++ more) =
      (ts ++ (splitPackage (ts.foldl pendingCreate create?) more).1,
        (splitPackage (ts.foldl pendingCreate create?) more).2) := by
  induction ts generalizing create? with
  | nil => rfl
  | cons t ts ih =>
    simp only [List.cons_append, splitPackage] at h ⊢
    split at h
    · cases h
    · rename_i hfound
      simp only [if_neg hfound, ih h, List.foldl_cons]

/-- The word `package` is only found behind `create`. -/
theorem isSome_of_splitPackage (h : (splitPackage create? ts).2 ≠ []) :
    ((splitPackage create? ts).1.foldl pendingCreate create?).isSome := by
  induction ts generalizing create? with
  | nil => exact absurd rfl h
  | cons t ts ih =>
    unfold splitPackage at h ⊢
    split
    · rename_i hfound
      simp only [Bool.and_eq_true] at hfound
      exact hfound.2
    · rename_i hfound
      rw [if_neg hfound] at h
      exact ih h

end

/-! ## The name of a package -/

/-- The name of a package stands at hand, or behind that of a schema and a dot. -/
theorem tokens_packageName (heof : i.eof.kind = .eof) {x : Ident}
    (h : Returns packageName i ts x rest) :
    ∃ schema n behind, ts = schema ++ n :: behind ∧ rest <:+ behind ∧ x = ⟨n.lexeme, n.span⟩ ∧
      (schema = [] ∨ ∃ q dot, schema = [q, dot] ∧ dot.kind = .op .dot) := by
  obtain ⟨hname, h⟩ := returns_name_bind.1 h
  obtain ⟨t, us, rfl, -⟩ := cons_of_current heof hname (by simp)
  simp only [returns_advance_bind, returns_isAt_bind, returns_ite, returns_nextName_bind,
    returns_takeTo_bind, returns_pure, decide_eq_true_eq, List.tail_cons] at h
  obtain ⟨-, h⟩ := h
  split at h
  · rename_i hdot
    obtain ⟨-, hname', -, -, rfl, rfl⟩ := h
    obtain ⟨dot, us, rfl, hdot⟩ := cons_of_current heof hdot (by simp)
    obtain ⟨n, us, rfl, -⟩ := cons_of_current heof hname' (by simp)
    exact ⟨[t, dot], n, us, rfl, List.dropWhile_suffix _, rfl, .inr ⟨t, dot, rfl, hdot⟩⟩
  · obtain ⟨-, rfl, rfl⟩ := h
    exact ⟨[], t, us, rfl, List.dropWhile_suffix _, rfl, .inl rfl⟩

/-! ## One package -/

section
variable {name : Ident}

theorem returns_packageEnd {e : DocToken} {last : Nat} :
    Returns (packageEnd name) i (e :: ts) last rest ↔ Reaches i [e] ts ∧ rest = ts ∧
      if (i.current ts).kind = .ident then
        (i.current ts).lexeme = name.name ∧ last = (i.current ts).span.stop
      else last = e.span.stop := by
  simp only [packageEnd, returns_current_bind, returns_advance_bind, List.tail_cons, returns_ite,
    returns_pure, not_returns_fail]
  simp only [Input.current, List.headD_cons, List.take_succ_cons, List.take_zero, beq_iff_eq]
  grind

/-- A round is a statement, or the end of the package. -/
theorem returns_itemStep {found : Found} {x : Found ⊕ Found} :
    Returns (itemStep name found) i ts x rest ↔
      if (i.current ts).kind = .keyword .end_ then
        ∃ last, Returns (packageEnd name) i ts last rest ∧ x = .inr ⟨found.items, last⟩
      else ∃ item, Returns item? i ts item rest ∧
        x = .inl ⟨item.toList ++ found.items, (i.current ts).span.start⟩ := by
  simp only [itemStep, returns_current_bind, returns_ite, returns_bind (p := packageEnd name),
    returns_bind (p := item?), returns_pure]
  grind

theorem returns_items {y : List Item × Nat} :
    Returns (items name) i ts y rest ↔ ∃ found,
      Returns (iterate (itemStep name) id ⟨[], (i.current ts).span.start⟩) i ts found rest ∧
        y.1 = found.items.reverse ∧ y.2 = found.last := by
  simp only [items, returns_current_bind, returns_bind (p := iterate _ _ _), returns_pure,
    Prod.ext_iff]
  grind

end

/-- A body is skipped, and all else is a package with a name. -/
theorem returns_package? {create : DocToken} {p? : Option Package} :
    Returns (package? create) i ts p? rest ↔
      if (i.current ts).kind = .keyword .body then Returns packageBody i ts () rest ∧ p? = none
      else ∃ name opening items last, Returns packageName i ts name opening ∧
        Returns (Parser.items name) i opening (items, last) rest ∧
        p? = some (.ofItems create.leadDoc name create.span.start last items) := by
  simp only [package?, returns_isAt_bind, returns_ite, returns_bind (p := packageBody),
    returns_bind (p := packageName), returns_bind (p := Parser.items _), returns_log_bind,
    returns_pure, decide_eq_true_eq]
  grind

/-! ## The search for packages -/

@[simp]
theorem returns_nextCreate? {create? : Option DocToken} :
    Returns nextCreate? i ts create? rest ↔
      rest = (splitPackage none ts).2 ∧
        Reaches i (splitPackage none ts).1 (splitPackage none ts).2 ∧
        create? = if rest.isEmpty then none else (splitPackage none ts).1.foldl pendingCreate none := by
  simp only [nextCreate?, returns_bind, returns_passTo, returns_atEnd, returns_pure]
  grind

theorem eq_nil_of_nextCreate? (h : Returns nextCreate? i ts none rest) : rest = [] := by
  obtain ⟨rfl, -, hcreate⟩ := returns_nextCreate?.1 h
  by_contra hne
  have hsome := isSome_of_splitPackage hne
  rw [if_neg (by simpa using hne)] at hcreate
  rw [← hcreate] at hsome
  cases hsome

theorem returns_packages {ps : List Package} :
    Returns packages i ts ps rest ↔ ∃ create? mid, Returns nextCreate? i ts create? mid ∧
      match create? with
      | some create =>
        Returns (iterate packageStep (fun s => s.packages.reverse) ⟨create, []⟩) i mid ps rest
      | none => ps = [] ∧ rest = mid := by
  simp only [packages, returns_bind]
  constructor
  · rintro ⟨create?, mid, hnext, hrest⟩
    refine ⟨create?, mid, hnext, ?_⟩
    cases create? <;> simpa using hrest
  · rintro ⟨create?, mid, hnext, hrest⟩
    refine ⟨create?, mid, hnext, ?_⟩
    cases create? <;> simpa using hrest

/-- A round of the search: the package at hand, and the way to the next one. -/
theorem returns_packageStep {s : Search} {x : Search ⊕ List Package} :
    Returns (packageStep s) i ts x rest ↔ ∃ p mid create?, Returns (package? s.create) i ts p mid ∧
      Returns nextCreate? i mid create? rest ∧
      x = match create? with
        | some create => .inl ⟨create, p.toList ++ s.packages⟩
        | none => .inr (p.toList ++ s.packages).reverse := by
  simp only [packageStep, returns_bind]
  constructor
  · rintro ⟨p, mid, hp, create?, mid', hnext, hx⟩
    cases create? with
    | none => exact ⟨p, mid, none, hp, (returns_pure.1 hx).2 ▸ hnext, (returns_pure.1 hx).1⟩
    | some c => exact ⟨p, mid, some c, hp, (returns_pure.1 hx).2 ▸ hnext, (returns_pure.1 hx).1⟩
  · rintro ⟨p, mid, create?, hp, hnext, rfl⟩
    exact ⟨p, mid, hp, create?, rest, hnext, by cases create? <;> simp⟩

theorem eq_nil_of_packages {ps : List Package} (h : Returns packages i ts ps rest) :
    rest = [] := by
  obtain ⟨create?, mid, hnext, hmore⟩ := returns_packages.1 h
  cases create? with
  | none => rw [hmore.2, eq_nil_of_nextCreate? hnext]
  | some create =>
    refine Returns.iterate (fun _ _ => True) (fun _ us => us = []) ?_ (fun _ _ => rfl) trivial hmore
    intro s t us x mid _ _ hround
    obtain ⟨p, mid', create?, -, hnext, rfl⟩ := returns_packageStep.1 hround
    cases create? with
    | some create => exact trivial
    | none => exact eq_nil_of_nextCreate? hnext

/-- A body is skipped. -/
theorem returns_package?_body {create : DocToken} {p : Option Package} {d : DocToken}
    (hd : d.kind = .keyword .body) (hts : ts ≠ []) :
    Returns (package? create) i (d :: ts) p rest ↔
      p = none ∧ rest = (splitBody 1 ts).2 ∧ Reaches i (splitBody 1 ts).1 (splitBody 1 ts).2 := by
  have hreaches : Reaches i [d] ts := fun _ h => absurd h hts
  simp only [package?, returns_bind, returns_isAt, Input.current, List.headD_cons, hd,
    packageBody, returns_ite, returns_current, returns_advance, returns_passTo, returns_log,
    returns_pure]
  grind

theorem returns_packages_nil {ps : List Package} :
    Returns packages i [] ps rest ↔ ps = [] ∧ rest = [] := by
  simp only [returns_packages, returns_nextCreate?, splitPackage, Reaches]
  grind

theorem outcome_packages_nil : packages.outcome i [] = .ok ([], []) :=
  returns_packages_nil.2 ⟨rfl, rfl⟩

end Parser

end PackageDoc
