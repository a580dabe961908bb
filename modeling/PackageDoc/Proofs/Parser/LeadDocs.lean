/-
  Docs and the comments that lead declarations.

  The doc of a package, of a declaration and of a field of a list is what the comments
  give the token that introduces it: the last run without blank lines of those between
  the token and the line of the token before it, if that run ends just above the token.
  It is the run with single blank lines only if there is no blank line in that
  (`parse_lead_runs`).
-/
import PackageDoc.Proofs.Comment.Runs
import PackageDoc.Proofs.Parser.Extent
import PackageDoc.Proofs.Parser.FieldTokens

namespace PackageDoc

open Text

/-! ## Docs and lists of declarations -/

/-- The doc of a declaration. -/
def Item.doc : Item → Option CommentGroup
  | field f => f.doc
  | subtype s => s.doc
  | routine r => r.doc
  | cursor c => c.doc
  | type t => t.doc

/-- The list of fields of a declaration, if it has one. -/
def Item.list? : Item → Option FieldList
  | field _ | subtype _ => none
  | routine r => r.params
  | cursor c => c.params
  | type t => t.body.fields?

/-- A list that is read from a token of the input on. -/
def FieldList.ReadFrom (i : Input) (l : FieldList) : Prop :=
  ∃ t us rest, t :: us <:+ i.tokens ∧ Parser.fieldList.Returns i (t :: us) l rest

/-- A declaration that has the doc `doc`, and whose list, if it has one, is read from the
    input. -/
def Item.Takes (i : Input) (doc : Option CommentGroup) (item : Item) : Prop :=
  item.doc = doc ∧ ∀ l ∈ item.list?, l.ReadFrom i

namespace Parser

variable {i : Input} {ts us rest : List DocToken}

theorem readFrom_fieldList? (hi : i.Small) :
    Ensures i fieldList? fun l? => ∀ l ∈ l?, l.ReadFrom i := by
  refine Ensures.of_returns ((ensures_fieldList? hi).weaken fun _ _ => trivial) ?_
  intro ts l? rest hts h
  rw [returns_fieldList?] at h
  split at h
  · rename_i hopen
    obtain ⟨t, us, rfl, -⟩ := cons_of_current hi.eof_kind hopen (by simp)
    obtain ⟨l, hl, rfl⟩ := h
    simpa using ⟨t, us, _, hts, hl⟩
  · obtain ⟨rfl, -⟩ := h
    simp

theorem takes_variableField (hi : i.Small) (hts : ts <:+ i.tokens) {f : Field}
    (h : Returns variableField i ts f rest) : (Item.field f).Takes i (i.current ts).leadDoc := by
  refine Ensures.result (Q := fun f => (Item.field f).Takes i (i.current ts).leadDoc) ?_ hts
    (returns_current_bind.1 h)
  refine .bind (ensures_name hi) fun _ _ => .bind .advance fun _ _ => .bind (.isAt _) fun _ _ => ?_
  refine .ite (fun _ => .pure ⟨rfl, by simp [Item.list?]⟩) fun _ => ?_
  refine .bind (.isAt _) fun constant _ => .when .advance (.bind .current fun _ _ => ?_)
  refine .bind (.takeTo _) fun _ _ => .pure ⟨?_, by simp [Item.list?]⟩
  cases constant <;> rfl

theorem takes_subtype (hi : i.Small) (hts : ts <:+ i.tokens) {s : Subtype}
    (h : Returns subtype i ts s rest) : (Item.subtype s).Takes i (i.current ts).leadDoc := by
  refine Ensures.result (Q := fun s => (Item.subtype s).Takes i (i.current ts).leadDoc) ?_ hts
    (returns_current_bind.1 h)
  refine .bind (ensures_nextName hi) fun _ _ => .bind .advance fun _ _ => .bind (.require _) ?_
  exact fun _ _ => .bind (ensures_typeTail hi) fun _ _ => .pure ⟨rfl, by simp [Item.list?]⟩

theorem takes_routine (hi : i.Small) (hts : ts <:+ i.tokens) {r : Routine}
    (h : Returns routine i ts r rest) : (Item.routine r).Takes i (i.current ts).leadDoc := by
  refine Ensures.result (Q := fun r => (Item.routine r).Takes i (i.current ts).leadDoc) ?_ hts
    (returns_current_bind.1 h)
  refine .bind (ensures_nextName hi) fun _ _ => .bind .advance fun _ _ => ?_
  refine .bind (readFrom_fieldList? hi) fun params hparams => .ite (fun _ => ?_) fun _ => ?_
  · exact .bind (.skipTo _) fun _ _ => .pure ⟨rfl, hparams⟩
  · exact .bind (ensures_functionResult hi) fun _ _ => .bind (.takeTo _) fun _ _ =>
      .pure ⟨rfl, hparams⟩

theorem takes_cursor (hi : i.Small) (hts : ts <:+ i.tokens) {c : Cursor}
    (h : Returns cursor i ts c rest) : (Item.cursor c).Takes i (i.current ts).leadDoc := by
  obtain ⟨-, -, -, params, mid, result, mid', sql, hparams, -, -, rfl⟩ := returns_cursor.1 h
  have hsuffix : ts.tail.tail <:+ i.tokens := (ts.tail.tail_suffix.trans ts.tail_suffix).trans hts
  exact ⟨rfl, (readFrom_fieldList? hi).result hsuffix hparams⟩

/-- Only records have a list. -/
theorem readFrom_typeBody? (hi : i.Small) (name : Ident) :
    Ensures i (typeBody? name) fun body? =>
      ∀ body ∈ body?, ∀ l ∈ body.fields?, l.ReadFrom i := by
  refine .bind .current fun t _ => ?_
  have hkeep {p : Parser TypeBody} (h : Ensures i p fun body => ∀ l ∈ body.fields?, l.ReadFrom i) :
      Ensures i (p >>= fun body => pure (some body)) fun body? =>
        ∀ body ∈ body?, ∀ l ∈ body.fields?, l.ReadFrom i :=
    .bind h fun body hbody => .pure fun b hb => Option.some.inj hb ▸ hbody
  split
  · refine hkeep (.bind .advance fun _ _ => .bind (.skipTo _) fun _ _ => ?_)
    exact .bind (ensures_typeTail hi) fun _ _ => .pure (by simp [TypeBody.fields?])
  · refine hkeep (.bind .advance fun _ _ => .bind (ensures_arrayBound? hi) fun _ _ => ?_)
    exact .bind (.skipTo _) fun _ _ => .bind (ensures_typeTail hi) fun _ _ =>
      .pure (by simp [TypeBody.fields?])
  · refine hkeep (Ensures.of_returns ((ensures_recordType hi).weaken fun _ _ => trivial) ?_)
    intro ts body rest hts h
    obtain ⟨-, hopen, l, hl, rfl⟩ := returns_recordType.1 h
    obtain ⟨t, us, htail, -⟩ := cons_of_current hi.eof_kind hopen (by simp)
    rw [htail] at hl
    simpa [TypeBody.fields?] using ⟨t, us, _, htail ▸ ts.tail_suffix.trans hts, hl⟩
  · refine hkeep (.bind .advance fun _ _ => .bind (.require _) fun _ _ => .bind .advance fun _ _ => ?_)
    refine .bind (.isAt _) fun _ _ => .ite (fun _ => .pure (by simp [TypeBody.fields?])) fun _ => ?_
    exact .bind (.require _) fun _ _ => .bind (ensures_typeTail hi) fun _ _ =>
      .pure (by simp [TypeBody.fields?])
  · exact .bind (.log _) fun _ _ => .bind (.skipTo _) fun _ _ => .pure (by simp)

theorem takes_typeDecl? (hi : i.Small) (hts : ts <:+ i.tokens) {t? : Option TypeDecl}
    (h : Returns typeDecl? i ts t? rest) :
    ∀ t ∈ t?, (Item.type t).Takes i (i.current ts).leadDoc := by
  refine Ensures.result (Q := fun t? : Option TypeDecl =>
    ∀ t ∈ t?, (Item.type t).Takes i (i.current ts).leadDoc) ?_ hts (returns_current_bind.1 h)
  refine .bind (ensures_nextName hi) fun x _ => .bind .advance fun _ _ => .bind (.require _) ?_
  refine fun _ _ => .bind .advance fun _ _ => .bind (readFrom_typeBody? hi x) fun body? hbody => ?_
  refine .pure fun t ht => ?_
  obtain ⟨body, hsome, rfl⟩ := Option.map_eq_some_iff.1 ht
  exact ⟨rfl, hbody body hsome⟩

/-- **One declaration** has the doc that leads the token at hand. -/
theorem takes_item? (hi : i.Small) (hts : ts <:+ i.tokens) {item : Item}
    (h : Returns item? i ts (some item) rest) : item.Takes i (i.current ts).leadDoc := by
  have hkind := returns_of_item? h
  cases item with
  | field f => exact takes_variableField hi hts hkind
  | subtype s => exact takes_subtype hi hts hkind.2
  | routine r =>
    obtain ⟨-, -, hr⟩ := hkind
    exact takes_routine hi hts hr
  | cursor c => exact takes_cursor hi hts hkind.2
  | type t => exact takes_typeDecl? hi hts hkind.2 t rfl

/-! ## Packages -/

/-- The word `create` that a package starts with, and its doc. -/
theorem mem_of_creates (hi : i.Commented) (hts : ts <:+ i.tokens) {create : DocToken}
    (h : Creates i ts create us) : create ∈ i.tokens ∧ create.kind = .keyword .create := by
  obtain ⟨t, hnext, -⟩ := h
  obtain ⟨before, between, t, after, htokens, -, hkind, -⟩ := (opens_of_nextCreate? hi hts hnext).1
  exact ⟨by simp [htokens], hkind⟩

/-- In an outline all packages have the docs of the words that they start with. -/
theorem Outline.leadDocs (hi : i.Commented) {closed : List Package} {cut? : Option Package}
    (h : Outline i ts closed cut?) (hts : ts <:+ i.tokens) :
    ∀ p ∈ closed ++ cut?.toList, ∃ create ∈ i.tokens, create.kind = .keyword .create ∧
      p.first = create.span.start ∧ p.doc = create.leadDoc := by
  induction h with
  | done => simp
  | body hcreates _ hskip _ ih => exact ih (hskip.suffix.trans (hcreates.suffix.trans hts))
  | closed hcreates _ hcloses _ ih =>
    refine List.forall_mem_cons.2 ⟨?_, ih (hcloses.suffix.trans (hcreates.suffix.trans hts))⟩
    obtain ⟨hmem, hkind⟩ := mem_of_creates hi hts hcreates
    obtain ⟨name, opening, found, t, e, behind, -, -, -, -, hp⟩ := hcloses
    exact ⟨_, hmem, hkind, congrArg Package.first hp, congrArg Package.doc hp⟩
  | cutOff hcreates _ hcuts =>
    obtain ⟨hmem, hkind⟩ := mem_of_creates hi hts hcreates
    obtain ⟨name, opening, found, -, -, rfl⟩ := hcuts
    simpa using ⟨_, hmem, hkind, rfl, rfl⟩

end Parser

/-! ## Files -/

section
variable {file : String} {text : List Char} {ps : List Package}

/-- The packages of a file take their docs off the words that they start with. -/
theorem Input.leadDoc_of_packages (hsize : text.utf8Encode.size ≤ maxOffset)
    (h : Parser.packages.Returns (ofText file text) (ofText file text).tokens ps []) :
    ∀ p ∈ ps, ∃ create ∈ (ofText file text).tokens, create.kind = .keyword .create ∧
      p.first = create.span.start ∧ p.doc = create.leadDoc := by
  have hi := Input.commented_ofText file hsize
  obtain ⟨closed, cut?, houtline, hpackages⟩ := (Parser.returns_packages_iff hi.toScanned).1 h
  exact hpackages ▸ houtline.leadDocs hi (List.suffix_refl _)

/-- The declarations of a file take their docs off the tokens that introduce them. -/
theorem Input.takes_of_packages (hsize : text.utf8Encode.size ≤ maxOffset)
    (hfault : (ofText file text).fault? = none)
    (h : Parser.packages.Returns (ofText file text) (ofText file text).tokens ps []) :
    ∀ p ∈ ps, ∀ item ∈ p.items, ∃ d ∈ (ofText file text).tokens,
      item.IntroducedBy (ofText file text).raw d.token ∧
        item.Takes (ofText file text) d.leadDoc := by
  have hi := Input.small_ofText file hsize
  obtain ⟨closed, cut?, houtline, hpackages⟩ := (Parser.returns_packages_iff hi.toScanned).1 h
  rw [hpackages]
  refine houtline.forall_items (List.suffix_refl _) fun ts item rest hts hitem => ?_
  obtain ⟨d, us, rfl, hintroduced, -⟩ := Parser.confined_item? hi.toScanned hfault hts hitem
  exact ⟨d, hts.subset (by simp), hintroduced, Parser.takes_item? hi hts hitem⟩

/-- The fields of a list are named by tokens, and take their docs off these. -/
theorem FieldList.ReadFrom.fieldDoc {i : Input} {l : FieldList} (h : l.ReadFrom i)
    (heof : i.eof.kind = .eof) :
    ∀ x ∈ l.fields, ∃ d ∈ i.tokens, x.name = ⟨d.lexeme, d.span⟩ ∧ x.doc = d.fieldDoc := by
  obtain ⟨t, us, rest, hts, hreturns⟩ := h
  obtain ⟨ps, inner, close, rfl, -, -, -, hps, hfields⟩ := Parser.tokens_fieldList heof hreturns
  intro x hx
  obtain ⟨fs, ys, hsplit⟩ := List.append_of_mem hx
  rw [hsplit] at hfields
  obtain ⟨p, qs, hgives, -, hdrop⟩ :=
    List.forall₂_cons_right_iff.1 (List.forall₂_drop_append ps fs (x :: ys) hfields)
  have hp : p ∈ ps := List.mem_of_mem_drop (i := fs.length) (by simp [hdrop])
  have hmem : p.name ∈ inner := (hps.isInfix p hp).subset (by simp [FieldPart.tokens])
  obtain ⟨first, -, hfield⟩ := hgives.field
  exact ⟨p.name, hts.subset (by simp [hmem]), congrArg Field.name hfield, congrArg Field.doc hfield⟩

end

/-- The name of a field is a token, and the comments that lead it are the doc of the
    field, if there are any. -/
def Field.LedBy (f : Field) (source : ByteArray) (raw : List Token) : Prop :=
  ∃ t ∈ raw, f.name = ⟨t.lexeme, t.span⟩ ∧
    ∃ lead, t.LedBy source raw lead ∧ (lead ≠ none → f.doc = lead)

/-- **Docs are last runs without blank lines.**  In a file that is parsed, the doc of a
    package, of a declaration and of a field of a list that comments lead is the last
    run without blank lines of the comments between its token and the line of the token
    before that.  It is the last run with at most one blank line between two comments if
    and only if nowhere in that run there is one. -/
theorem parse_lead_runs {file : String} {source : ByteArray} {f : SourceFile}
    (h : (parse file source).result = .ok f) :
    ∃ raw, tokens? source = some raw ∧ ∀ p ∈ f.packages,
      (∃ t ∈ raw, t.kind = .keyword .create ∧ p.first = t.span.start ∧ t.LedBy source raw p.doc) ∧
      ∀ item ∈ p.items, (∃ t ∈ raw, item.IntroducedBy raw t ∧ t.LedBy source raw item.doc) ∧
        ∀ l ∈ item.list?, ∀ x ∈ l.fields, x.LedBy source raw := by
  obtain ⟨text, rfl, hsize, hfault, hreturns⟩ := text_of_parse h
  have hi := Input.small_ofText file hsize
  refine ⟨_, hi.tokens?_source hfault, fun p hp => ⟨?_, fun item hitem => ?_⟩⟩
  · obtain ⟨create, hmem, hkind, hfirst, hdoc⟩ := Input.leadDoc_of_packages hsize hreturns p hp
    exact ⟨create.token, Input.Scanned.mem_raw hmem, hkind, hfirst,
      hdoc ▸ Input.ledBy_ofText file text hmem⟩
  · obtain ⟨d, hmem, hintroduced, hdoc, hlist⟩ :=
      Input.takes_of_packages hsize hfault hreturns p hp item hitem
    refine ⟨⟨d.token, Input.Scanned.mem_raw hmem, hintroduced,
      hdoc ▸ Input.ledBy_ofText file text hmem⟩, fun l hl x hx => ?_⟩
    obtain ⟨e, he, hname, hfield⟩ := (hlist l hl).fieldDoc hi.eof_kind x hx
    refine ⟨e.token, Input.Scanned.mem_raw he, hname, e.leadDoc,
      Input.ledBy_ofText file text he, fun hlead => ?_⟩
    obtain ⟨lead, hlead⟩ := Option.ne_none_iff_exists'.1 hlead
    rw [hfield, DocToken.fieldDoc, hlead, show e.slots.lead = some lead from hlead]
    rfl

/-- Two comments with a blank line between them, above a variable. -/
def gapSource : ByteArray := "create package p is\n-- a\n\n-- b\nv number;\nend p;".toUTF8

/-- The package with the second comment as the doc of its variable. -/
def gapPackage : Package :=
  .ofItems none ⟨"p", 15, 16⟩ 0 46 [.field (.ofVariable (CommentGroup.ofList? [⟨"-- b", 26⟩])
    ⟨"v", 31, 32⟩ ⟨"number", 33, 39⟩ none false)]

theorem parse_gapSource : (parse "x.pks" gapSource).result = .ok ⟨"x.pks", [gapPackage]⟩ := by
  decide +kernel

theorem tokens?_gapSource : tokens? gapSource = some
    [⟨.keyword .create, "create", 0, 6⟩, ⟨.keyword .package, "package", 7, 14⟩,
      ⟨.ident, "p", 15, 16⟩, ⟨.keyword .is, "is", 17, 19⟩, ⟨.comment, "-- a", 20, 24⟩,
      ⟨.comment, "-- b", 26, 30⟩, ⟨.ident, "v", 31, 32⟩, ⟨.ident, "number", 33, 39⟩,
      ⟨.op .semicolon, ";", 39, 40⟩, ⟨.keyword .end_, "end", 41, 44⟩, ⟨.ident, "p", 45, 46⟩,
      ⟨.op .semicolon, ";", 46, 47⟩] := by
  decide +kernel

/-- The doc of the variable is the second comment. -/
theorem parse_lead_runs_gap :
    (parse "x.pks" gapSource).result = .ok ⟨"x.pks", [gapPackage]⟩ ∧
      gapPackage.items.map (fun item => docText item.doc) = ["b\n"] ∧
      ∃ raw, tokens? gapSource = some raw ∧ ∀ p ∈ [gapPackage],
        (∃ t ∈ raw, t.kind = .keyword .create ∧ p.first = t.span.start ∧
          t.LedBy gapSource raw p.doc) ∧
        ∀ item ∈ p.items, (∃ t ∈ raw, item.IntroducedBy raw t ∧ t.LedBy gapSource raw item.doc) ∧
          ∀ l ∈ item.list?, ∀ x ∈ l.fields, x.LedBy gapSource raw :=
  ⟨parse_gapSource, by decide +kernel, parse_lead_runs parse_gapSource⟩

/-- The run with single blank lines goes from the first comment to just above the
    variable, but the doc is only its second comment. -/
theorem lead_run_cut :
    ∃ f raw, (parse "x.pks" gapSource).result = .ok f ∧ tokens? gapSource = some raw ∧
      ∃ p ∈ f.packages, ∃ item ∈ p.items, ∃ t ∈ raw, item.IntroducedBy raw t ∧
        ∃ others wide, t.Below gapSource raw others ∧ LastRun 1 others wide ∧
          wide.getLast?.map (·.last + 1) = some (lineAt gapSource t.pos) ∧ item.doc ≠ none ∧
          item.doc.map (·.comments) ≠ some (wide.map (·.comment)) := by
  have hplaced : [(⟨.comment, "-- a", 20, 24⟩ : Token), ⟨.comment, "-- b", 26, 30⟩].map
      (·.placed gapSource) = [⟨⟨"-- a", 20⟩, 2, 2⟩, ⟨⟨"-- b", 26⟩, 4, 4⟩] := by
    decide +kernel
  have hwide : LastRun 1 [⟨⟨"-- a", 20⟩, 2, 2⟩, ⟨⟨"-- b", 26⟩, 4, 4⟩]
      [⟨⟨"-- a", 20⟩, 2, 2⟩, ⟨⟨"-- b", 26⟩, 4, 4⟩] :=
    ⟨List.suffix_refl _, by simp [PlacedComment.Spaced], fun r hr _ => hr.length_le⟩
  have hsame : SameLine (some (lineAt gapSource 17))
      [⟨⟨"-- a", 20⟩, 2, 2⟩, ⟨⟨"-- b", 26⟩, 4, 4⟩] [] := by
    have hline : lineAt gapSource 17 = 1 := by decide +kernel
    rw [hline]
    exact sameLine_splitSameLine (some 1) _
  have hnext : lineAt gapSource 31 = 5 := by decide +kernel
  refine ⟨_, _, parse_gapSource, tokens?_gapSource, _, List.mem_singleton_self _, _,
    List.mem_singleton_self _, ⟨.ident, "v", 31, 32⟩, by simp, ⟨by simp, rfl, rfl⟩, _, _,
    ⟨[⟨.keyword .create, "create", 0, 6⟩, ⟨.keyword .package, "package", 7, 14⟩,
      ⟨.ident, "p", 15, 16⟩, ⟨.keyword .is, "is", 17, 19⟩],
      [⟨.comment, "-- a", 20, 24⟩, ⟨.comment, "-- b", 26, 30⟩], _, [], rfl, by simp, by simp,
      hplaced, ?_⟩, hwide, by simp [hnext, Token.pos], by decide, by decide⟩
  rw [hplaced]
  exact hsame

end PackageDoc
