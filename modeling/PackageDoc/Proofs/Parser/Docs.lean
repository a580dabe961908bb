/-
  Docs and the comments of the source.

  A doc is a run of comments of the source, with nothing but comments between it
  and the token that introduces the declaration, and no comment is in two docs
  (`parse_docs`).  The introducing token is the word `create` of a package, the
  word at the start of a routine, a cursor, a type or a subtype, and the name of
  everything else.

  A parser takes a doc off the token at hand and moves on, so what it has taken
  when it stops are comments on the way (`Draws`): the productions add up, and no
  comment is passed twice.
-/
import Mathlib.Data.List.Perm.Subperm
import PackageDoc.Proofs.Comment.Attribution
import PackageDoc.Proofs.Parser.Reassembly

namespace PackageDoc

/-! ## The docs of a file -/

/-- The docs of the fields of a list. -/
def FieldList.docs (l : FieldList) : List CommentGroup := l.fields.flatMap (·.doc.toList)

/-- The docs of a declaration and of its parts. -/
def Item.docs : Item → List CommentGroup
  | field f => f.doc.toList
  | subtype s => s.doc.toList
  | routine r => r.doc.toList ++ r.params.toList.flatMap FieldList.docs
  | cursor c => c.doc.toList ++ c.params.toList.flatMap FieldList.docs
  | type t => t.doc.toList ++ t.body.fields?.toList.flatMap FieldList.docs

/-- The docs of a package and of its declarations. -/
def Package.docs (p : Package) : List CommentGroup := p.doc.toList ++ p.items.flatMap Item.docs

/-- The docs of a file. -/
def SourceFile.docs (f : SourceFile) : List CommentGroup := f.packages.flatMap Package.docs

/-- Where the comments of a group start. -/
def CommentGroup.starts (g : CommentGroup) : List Nat := g.comments.map (·.start)

/-! ## Docs and the tokens that they lead -/

section
variable (raw : List Token)

/-- The comments of a group are tokens, one behind the other, and nothing but
    comments stands between them and the token `t`. -/
def CommentGroup.Leads (g : CommentGroup) (t : Token) : Prop :=
  ∃ before run between after, raw = before ++ run ++ between ++ t :: after ∧
    g.comments = run.map .ofToken ∧ ∀ c ∈ run ++ between, c.kind = .comment

/-- A field whose doc leads its name. -/
def Field.Documented (f : Field) : Prop :=
  ∃ t ∈ raw, t.kind ≠ .comment ∧ f.name = ⟨t.lexeme, t.span⟩ ∧ ∀ g ∈ f.doc, g.Leads raw t

/-- A list of such fields. -/
def FieldList.Documented (l : FieldList) : Prop := ∀ f ∈ l.fields, f.Documented raw

/-- A name behind a word, which the doc leads. -/
def Introduced (word : Keyword) (doc : Option CommentGroup) (name : Ident) : Prop :=
  ∃ before t between n after, raw = before ++ t :: between ++ n :: after ∧
    t.kind = .keyword word ∧ (∀ c ∈ between, c.kind = .comment) ∧
    n.kind = .ident ∧ name = ⟨n.lexeme, n.span⟩ ∧ ∀ g ∈ doc, g.Leads raw t

/-- The word that introduces a routine. -/
def RoutineKind.keyword : RoutineKind → Keyword
  | function => .function
  | procedure => .procedure

/-- A declaration whose doc, and those of its parts, lead what introduces them. -/
def Item.Documented : Item → Prop
  | field f => f.Documented raw
  | subtype s => Introduced raw .subtype s.doc s.name
  | routine r => Introduced raw r.kind.keyword r.doc r.name ∧ ∀ l ∈ r.params, l.Documented raw
  | cursor c => Introduced raw .cursor c.doc c.name ∧ ∀ l ∈ c.params, l.Documented raw
  | type t => Introduced raw .type t.doc t.name ∧ ∀ l ∈ t.body.fields?, l.Documented raw

/-- The name `x` at the front of some tokens, with or without that of a schema. -/
def Names (ts : List Token) (x : Ident) : Prop :=
  ∃ n after, x = ⟨n.lexeme, n.span⟩ ∧
    (ts = n :: after ∨ ∃ schema dot, dot.kind = .op .dot ∧ ts = schema :: dot :: n :: after)

/-- A package whose doc leads the last `create` before the word `package`, in one
    statement with it, and whose declarations are documented. -/
def Package.Documented (p : Package) : Prop :=
  (∃ before create between t after, raw = before ++ create :: between ++ t :: after ∧
    create.kind = .keyword .create ∧ p.first = create.span.start ∧
    (∀ u ∈ between, u.kind ≠ .keyword .create ∧ u.kind ≠ .op .semicolon) ∧
    t.kind = .keyword .package ∧ Names (after.filter (·.kind ≠ .comment)) p.name ∧
    ∀ g ∈ p.doc, g.Leads raw create) ∧
  ∀ item ∈ p.items, item.Documented raw

end

/-! ## Comments on the way -/

/-- Where the comments before a token start. -/
def DocToken.starts (d : DocToken) : List Nat := d.skipped.map (·.pos)

/-- On the way from `ts` to `rest`, the docs are taken off comments that are passed,
    each of them once. -/
def Draws (docs : List CommentGroup) (ts rest : List DocToken) : Prop :=
  ∃ taken, ts = taken ++ rest ∧
    (docs.flatMap CommentGroup.starts).Subperm (taken.flatMap DocToken.starts)

namespace Draws

variable {docs docs' : List CommentGroup} {ts us mid rest : List DocToken}

theorem nil (h : rest <:+ ts) : Draws [] ts rest := by
  obtain ⟨taken, rfl⟩ := h
  exact ⟨taken, rfl, List.nil_subperm⟩

theorem append (h : Draws docs ts mid) (h' : Draws docs' mid rest) :
    Draws (docs ++ docs') ts rest := by
  obtain ⟨taken, rfl, hdocs⟩ := h
  obtain ⟨taken', rfl, hdocs'⟩ := h'
  refine ⟨taken ++ taken', by simp, ?_⟩
  rw [List.flatMap_append, List.flatMap_append]
  exact hdocs.append hdocs'

/-- Further on, nothing is lost. -/
theorem forward (h : Draws docs ts mid) (hrest : rest <:+ mid) : Draws docs ts rest := by
  simpa using h.append (nil hrest)

theorem backward (hmid : mid <:+ ts) (h : Draws docs mid rest) : Draws docs ts rest :=
  (nil hmid).append h

theorem subperm (h : Draws docs ts rest)
    (hdocs : (docs'.flatMap CommentGroup.starts).Subperm (docs.flatMap CommentGroup.starts)) :
    Draws docs' ts rest := by
  obtain ⟨taken, rfl, htaken⟩ := h
  exact ⟨taken, rfl, hdocs.trans htaken⟩

/-- The doc of a token is taken off when the token is passed. -/
theorem of_attached {d : DocToken} {doc : Option CommentGroup} (hd : d.Attached)
    (hdoc : ∀ g ∈ doc, d.slots.lead = some g ∨ d.slots.line = some g) (hrest : rest <:+ us) :
    Draws doc.toList (d :: us) rest := by
  obtain ⟨taken, rfl⟩ := hrest
  refine ⟨d :: taken, rfl, List.Sublist.subperm ?_⟩
  cases doc with
  | none => exact List.nil_sublist _
  | some g =>
    obtain ⟨run, hrun, hcomments⟩ := hd g (hdoc g rfl)
    have hstarts : g.starts = run.map (·.pos) := by
      rw [CommentGroup.starts, hcomments, List.map_map]
      rfl
    rw [List.flatMap_cons, Option.toList_some, List.flatMap_singleton, hstarts]
    exact (hrun.sublist.map _).trans (List.sublist_append_left _ _)

end Draws

/-- An input of which the docs are runs of its comments. -/
structure Input.Commented (i : Input) : Prop extends Input.Small i where
  attached : ∀ d ∈ i.tokens, d.Attached

theorem Input.commented_ofText (file : String) {text : List Char}
    (h : text.utf8Encode.size ≤ maxOffset) : (Input.ofText file text).Commented :=
  ⟨Input.small_ofText file h, attached_attachFrom _ _ _ _ _⟩

namespace Input.Commented

variable {i : Input} {before between after : List DocToken} {d n : DocToken} {g : CommentGroup}

theorem leads (hi : i.Commented) (h : i.tokens = before ++ d :: after)
    (hg : d.slots.lead = some g ∨ d.slots.line = some g) : g.Leads i.raw d.token := by
  have hd : d ∈ i.tokens := by simp [h]
  obtain ⟨run, ⟨front, back, hskipped⟩, hcomments⟩ := hi.attached d hd g hg
  refine ⟨before.flatMap DocToken.raw ++ front, run, back,
    after.flatMap DocToken.raw ++ i.eof.skipped, ?_, hcomments, fun c hc => ?_⟩
  · rw [Input.Scanned.raw_eq h, ← hskipped]
    simp only [List.append_assoc]
  · refine hi.comments d hd c ?_
    rw [← hskipped, List.append_assoc]
    exact List.mem_append_right front hc

/-- A token that leads a field. -/
theorem field (hi : i.Commented) (h : i.tokens = before ++ d :: after) {f : Field}
    (hname : f.name = ⟨d.lexeme, d.span⟩)
    (hdoc : ∀ g ∈ f.doc, d.slots.lead = some g ∨ d.slots.line = some g) : f.Documented i.raw := by
  have hd : d ∈ i.tokens := by simp [h]
  exact ⟨d.token, Input.Scanned.mem_raw hd, hi.plain d hd, hname, fun g hg => hi.leads h (hdoc g hg)⟩

/-- A token that introduces the name behind it. -/
theorem introduced (hi : i.Commented) (h : i.tokens = before ++ d :: n :: after) {word : Keyword}
    (hd : d.kind = .keyword word) (hn : n.kind = .ident) :
    Introduced i.raw word d.leadDoc ⟨n.lexeme, n.span⟩ := by
  have hmem : n ∈ i.tokens := by simp [h]
  exact ⟨_, d.token, n.skipped, n.token, _, Input.Scanned.raw_eq_pair h, hd, hi.comments n hmem, hn,
    rfl, fun g hg => hi.leads h (.inl hg)⟩

end Input.Commented

theorem DocToken.mem_fieldDoc {d : DocToken} {g : CommentGroup} (h : g ∈ d.fieldDoc) :
    d.slots.lead = some g ∨ d.slots.line = some g := by
  rcases Option.or_eq_some_iff.1 h with h | ⟨-, h⟩
  · exact .inl h
  · exact .inr h

namespace Parser

variable {i : Input} {ts us rest : List DocToken}

/-! ## Fields -/

/-- A parameter takes the doc of the token that names it. -/
theorem docs_param (hi : i.Commented) (hts : ts <:+ i.tokens) {f : Field}
    (h : Returns param i ts f rest) : f.Documented i.raw ∧ Draws f.doc.toList ts rest := by
  cases ts with
  | nil =>
    -- the end of the input is no type
    simp [param, passMode, Input.current, hi.eof_kind, TokenKind.isKeyword] at h
  | cons t us =>
    have h := returns_current_bind.1 h
    have horigin : f.doc = t.fieldDoc ∧ f.name = ⟨t.lexeme, t.span⟩ := by
      refine Ensures.result (Q := fun f => f.doc = t.fieldDoc ∧ f.name = ⟨t.lexeme, t.span⟩) ?_ hts h
      refine .bind .advance fun _ _ => .bind ensures_passMode fun mode _ => ?_
      refine .bind .current fun word _ => .when .advance (.bind .current fun first _ => ?_)
      refine .when (.require _) (.bind (.takeNested _) fun ts _ => ?_)
      exact .bind (ensures_paramDefault hi.toSmall) fun d _ => .pure ⟨rfl, rfl⟩
    have hrest : rest <:+ us := (returns_advance_bind.1 h).2.suffix
    obtain ⟨before, hbefore⟩ := hts
    have hdoc : ∀ g ∈ f.doc, t.slots.lead = some g ∨ t.slots.line = some g :=
      fun g hg => DocToken.mem_fieldDoc (horigin.1 ▸ hg)
    exact ⟨hi.field hbefore.symm horigin.2 hdoc,
      .of_attached (hi.attached t (by simp [← hbefore])) hdoc hrest⟩

theorem docs_fieldList (hi : i.Commented) (hts : ts <:+ i.tokens) {l : FieldList}
    (h : Returns fieldList i ts l rest) : l.Documented i.raw ∧ Draws l.docs ts rest := by
  obtain ⟨l, mid, hloop, hrest⟩ := returns_bind.1 (returns_current_bind.1 h)
  simp only [returns_advance_bind, returns_pure] at hrest
  obtain ⟨-, rfl, rfl⟩ := hrest
  have hend : l.Documented i.raw ∧ Draws l.docs ts mid := by
    -- the docs of the fields so far were taken off on the way from `ts`
    refine Returns.iterate
      (fun done us => us <:+ ts ∧ (∀ f ∈ done, f.Documented i.raw) ∧
        Draws (done.reverse.flatMap (·.doc.toList)) ts us)
      (fun l us => l.Documented i.raw ∧ Draws l.docs ts us) ?_ ?_ ?_ hloop
    · rintro done t us x mid ⟨hus, hdone, hdraws⟩ - hround
      obtain ⟨f, hparam, hx⟩ := returns_fieldStep.1 hround
      have hus' : us <:+ ts := (List.suffix_cons t us).trans hus
      obtain ⟨hf, hfdraws⟩ := docs_param hi (hus'.trans hts) hparam
      have hmore : ∀ g ∈ f :: done, g.Documented i.raw := List.forall_mem_cons.2 ⟨hf, hdone⟩
      have hdraws' : Draws ((f :: done).reverse.flatMap (·.doc.toList)) ts mid := by
        have hnext := (hdraws.forward (List.suffix_cons t us)).append hfdraws
        simpa [List.flatMap_append] using hnext
      split at hx
      · subst hx
        exact ⟨fun g hg => hmore g (List.mem_reverse.1 hg), hdraws'⟩
      · rw [hx.2]
        exact ⟨hparam.suffix.trans hus', hmore, hdraws'⟩
    · rintro done ⟨-, hdone, hdraws⟩
      exact ⟨fun f hf => hdone f (List.mem_reverse.1 hf), hdraws⟩
    · exact ⟨List.suffix_refl _, by simp, .nil (List.suffix_refl _)⟩
  exact ⟨hend.1, hend.2.forward mid.tail_suffix⟩

theorem docs_fieldList? (hi : i.Commented) (hts : ts <:+ i.tokens) {l? : Option FieldList}
    (h : Returns fieldList? i ts l? rest) :
    (∀ l ∈ l?, l.Documented i.raw) ∧ Draws (l?.toList.flatMap FieldList.docs) ts rest := by
  rw [returns_fieldList?] at h
  split at h
  · obtain ⟨l, hl, rfl⟩ := h
    simpa using docs_fieldList hi hts hl
  · obtain ⟨rfl, rfl⟩ := h
    exact ⟨by simp, .nil (List.suffix_refl _)⟩

theorem docs_variableField (hi : i.Commented) (hts : ts <:+ i.tokens) {f : Field}
    (h : Returns variableField i ts f rest) : f.Documented i.raw ∧ Draws f.doc.toList ts rest := by
  obtain ⟨hkind, -, h⟩ := returns_variableField.1 h
  obtain ⟨t, us, rfl, -⟩ := cons_of_current hi.eof_kind hkind (by simp)
  have horigin : f.doc = t.leadDoc ∧ f.name = ⟨t.lexeme, t.span⟩ ∧ rest <:+ us := by
    split at h
    · obtain ⟨rfl, rfl⟩ := h
      exact ⟨rfl, rfl, List.suffix_refl _⟩
    · obtain ⟨mid, tokens, hmid, htokens, rfl⟩ := h
      have hmid : mid <:+ us := by
        split at hmid
        · exact hmid.2 ▸ us.tail_suffix
        · exact hmid ▸ List.suffix_refl us
      split
      · exact ⟨rfl, rfl, htokens.suffix.trans hmid⟩
      · exact ⟨rfl, rfl, htokens.suffix.trans hmid⟩
  obtain ⟨hlead, hname, hrest⟩ := horigin
  obtain ⟨before, hbefore⟩ := hts
  have hdoc : ∀ g ∈ f.doc, t.slots.lead = some g ∨ t.slots.line = some g :=
    fun g hg => .inl (show t.leadDoc = some g from hlead ▸ hg)
  exact ⟨hi.field hbefore.symm hname hdoc,
    .of_attached (hi.attached t (by simp [← hbefore])) hdoc hrest⟩

/-! ## Declarations behind a word -/

/-- The word and the name at the start of a declaration. -/
theorem docs_opening (hi : i.Commented) (hts : ts <:+ i.tokens) {word : Keyword}
    (hword : (i.current ts).kind = .keyword word) (hname : (i.current ts.tail).kind = .ident)
    (hrest : rest <:+ ts.tail) :
    Introduced i.raw word (i.current ts).leadDoc
        ⟨(i.current ts.tail).lexeme, (i.current ts.tail).span⟩ ∧
      Draws (i.current ts).leadDoc.toList ts rest := by
  obtain ⟨t, us, rfl, -⟩ := cons_of_current hi.eof_kind hword (by simp)
  cases us with
  | nil => exact absurd (hi.eof_kind.symm.trans hname) (by simp)
  | cons n us =>
    obtain ⟨before, hbefore⟩ := hts
    exact ⟨hi.introduced hbefore.symm hword hname,
      .of_attached (hi.attached t (by simp [← hbefore])) (fun g hg => .inl hg) hrest⟩

theorem docs_routine (hi : i.Commented) (hts : ts <:+ i.tokens) {r : Routine} (kind : RoutineKind)
    (hword : (i.current ts).kind = .keyword kind.keyword) (h : Returns routine i ts r rest) :
    (Item.routine r).Documented i.raw ∧ Draws (Item.routine r).docs ts rest := by
  obtain ⟨-, hname, -, params, mid, hparams, h⟩ := returns_routine.1 h
  have hsuffix : ts.tail.tail <:+ i.tokens := (ts.tail.tail_suffix.trans ts.tail_suffix).trans hts
  have horigin : r.doc = (i.current ts).leadDoc ∧
      r.name = ⟨(i.current ts.tail).lexeme, (i.current ts.tail).span⟩ ∧ r.params = params ∧
      r.kind = kind ∧ rest <:+ mid := by
    rw [hword] at h
    cases kind with
    | procedure =>
      rw [if_pos (by simp [RoutineKind.keyword])] at h
      obtain ⟨hskip, rfl⟩ := h
      exact ⟨rfl, rfl, rfl, rfl, hskip.suffix⟩
    | function =>
      rw [if_neg (by simp [RoutineKind.keyword])] at h
      obtain ⟨result, mid', clauses, hresult, hclauses, rfl⟩ := h
      exact ⟨rfl, rfl, rfl, rfl, hclauses.suffix.trans hresult.suffix⟩
  obtain ⟨hdoc, hname', hparams', hkind, hmid⟩ := horigin
  obtain ⟨hopening, hdraws⟩ := docs_opening hi hts hword hname ts.tail.tail_suffix
  obtain ⟨hlist, hdraws'⟩ := docs_fieldList? hi hsuffix hparams
  rw [← hdoc, ← hname', ← hkind] at hopening
  refine ⟨⟨hopening, hparams' ▸ hlist⟩, ?_⟩
  rw [Item.docs, hdoc, hparams']
  exact (hdraws.append hdraws').forward hmid

theorem docs_cursor (hi : i.Commented) (hts : ts <:+ i.tokens) {c : Cursor}
    (hword : (i.current ts).kind = .keyword .cursor) (h : Returns cursor i ts c rest) :
    (Item.cursor c).Documented i.raw ∧ Draws (Item.cursor c).docs ts rest := by
  obtain ⟨-, hname, -, params, mid, result, mid', sql, hparams, hresult, hquery, rfl⟩ :=
    returns_cursor.1 h
  have hsuffix : ts.tail.tail <:+ i.tokens := (ts.tail.tail_suffix.trans ts.tail_suffix).trans hts
  obtain ⟨hopening, hdraws⟩ := docs_opening hi hts hword hname ts.tail.tail_suffix
  obtain ⟨hlist, hdraws'⟩ := docs_fieldList? hi hsuffix hparams
  exact ⟨⟨hopening, hlist⟩, (hdraws.append hdraws').forward (hquery.suffix.trans hresult.suffix)⟩

theorem docs_subtype (hi : i.Commented) (hts : ts <:+ i.tokens) {s : Subtype}
    (hword : (i.current ts).kind = .keyword .subtype) (h : Returns subtype i ts s rest) :
    (Item.subtype s).Documented i.raw ∧ Draws (Item.subtype s).docs ts rest := by
  obtain ⟨-, hname, -, -, base, hbase, rfl⟩ := returns_subtype.1 h
  exact docs_opening hi hts hword hname (hbase.suffix.trans ts.tail.tail_suffix)

/-- Only records have fields with docs. -/
theorem docs_typeBody? (hi : i.Commented) (hts : ts <:+ i.tokens) {x : Ident}
    {body? : Option TypeBody} (h : Returns (typeBody? x) i ts body? rest) :
    (∀ l ∈ body?.bind TypeBody.fields?, l.Documented i.raw) ∧
      Draws ((body?.bind TypeBody.fields?).toList.flatMap FieldList.docs) ts rest := by
  have hplain (hfields : body?.bind TypeBody.fields? = none) :
      (∀ l ∈ body?.bind TypeBody.fields?, l.Documented i.raw) ∧
        Draws ((body?.bind TypeBody.fields?).toList.flatMap FieldList.docs) ts rest := by
    rw [hfields]
    exact ⟨by simp, .nil h.suffix⟩
  have h := returns_current_bind.1 h
  split at h
  · refine hplain (Ensures.result (Q := fun b => b.bind TypeBody.fields? = none) ?_ hts h)
    exact .bind (Q := fun b => b.fields? = none) (.bind .advance fun _ _ => .bind (.skipTo _)
      fun _ _ => .bind (ensures_typeTail hi.toSmall) fun _ _ => .pure rfl) fun b hb => .pure hb
  · refine hplain (Ensures.result (Q := fun b => b.bind TypeBody.fields? = none) ?_ hts h)
    exact .bind (Q := fun b => b.fields? = none) (.bind .advance fun _ _ =>
      .bind (ensures_arrayBound? hi.toSmall) fun _ _ => .bind (.skipTo _) fun _ _ =>
        .bind (ensures_typeTail hi.toSmall) fun _ _ => .pure rfl) fun b hb => .pure hb
  · obtain ⟨body, mid, hbody, hpure⟩ := returns_bind.1 h
    obtain ⟨rfl, rfl⟩ := returns_pure.1 hpure
    obtain ⟨-, -, l, hl, rfl⟩ := returns_recordType.1 hbody
    obtain ⟨hdocumented, hdraws⟩ := docs_fieldList hi (ts.tail_suffix.trans hts) hl
    simpa [TypeBody.fields?] using ⟨hdocumented, hdraws.backward ts.tail_suffix⟩
  · refine hplain (Ensures.result (Q := fun b => b.bind TypeBody.fields? = none) ?_ hts h)
    refine .bind (Q := fun b => b.fields? = none) ?_ fun b hb => .pure hb
    refine .bind .advance fun _ _ => .bind (.require _) fun _ _ => .bind .advance fun _ _ => ?_
    refine .bind (.isAt _) fun _ _ => .ite (fun _ => .pure rfl) fun _ => ?_
    exact .bind (.require _) fun _ _ => .bind (ensures_typeTail hi.toSmall) fun _ _ => .pure rfl
  · refine hplain (Ensures.result (Q := fun b => b.bind TypeBody.fields? = none) ?_ hts h)
    exact .bind (.log _) fun _ _ => .bind (.skipTo _) fun _ _ => .pure rfl

theorem docs_typeDecl? (hi : i.Commented) (hts : ts <:+ i.tokens) {t? : Option TypeDecl}
    (hword : (i.current ts).kind = .keyword .type) (h : Returns typeDecl? i ts t? rest) :
    (∀ t ∈ t?, (Item.type t).Documented i.raw) ∧
      Draws (t?.toList.flatMap fun t => (Item.type t).docs) ts rest := by
  obtain ⟨-, hname, -, -, -, body?, hbody, rfl⟩ := returns_typeDecl?.1 h
  have hsuffix : ts.tail.tail.tail <:+ ts.tail := ts.tail.tail.tail_suffix.trans ts.tail.tail_suffix
  obtain ⟨hopening, hdraws⟩ := docs_opening hi hts hword hname hsuffix
  obtain ⟨hlist, hdraws'⟩ := docs_typeBody? hi ((hsuffix.trans ts.tail_suffix).trans hts) hbody
  cases body? with
  | none => exact ⟨by simp, .nil ((hbody.suffix.trans hsuffix).trans ts.tail_suffix)⟩
  | some body =>
    refine ⟨fun t ht => ?_, ?_⟩
    · obtain rfl := Option.some.inj ht
      exact ⟨hopening, hlist⟩
    · simpa [Item.docs] using hdraws.append hdraws'

/-! ## Items -/

/-- What a declaration is read by: the parser of its kind, at a token that only
    declarations of this kind start with. -/
theorem returns_of_item? {item : Item} (h : Returns item? i ts (some item) rest) :
    match item with
    | .field f => Returns variableField i ts f rest
    | .subtype s => (i.current ts).kind = .keyword .subtype ∧ Returns subtype i ts s rest
    | .routine r => ∃ kind : RoutineKind,
        (i.current ts).kind = .keyword kind.keyword ∧ Returns routine i ts r rest
    | .cursor c => (i.current ts).kind = .keyword .cursor ∧ Returns cursor i ts c rest
    | .type t => (i.current ts).kind = .keyword .type ∧ Returns typeDecl? i ts (some t) rest := by
  have hsome {α : Type} {p : Parser α} {f : α → Item} {us : List DocToken}
      (h : Returns (p >>= fun a => pure (some (f a))) i ts (some item) us) :
      ∃ a, Returns p i ts a us ∧ item = f a := by
    obtain ⟨a, mid, ha, hpure⟩ := returns_bind.1 h
    obtain ⟨heq, rfl⟩ := returns_pure.1 hpure
    exact ⟨a, ha, Option.some.inj heq⟩
  have hnone {p : Parser Unit} {us : List DocToken} :
      ¬ Returns (p >>= fun _ => pure (none : Option Item)) i ts (some item) us := by
    intro h
    obtain ⟨_, mid, -, hpure⟩ := returns_bind.1 h
    cases (returns_pure.1 hpure).1
  have h := returns_current_bind.1 h
  split at h
  · exact absurd h hnone
  · obtain ⟨f, hf, rfl⟩ := hsome h
    exact hf
  · rename_i hword
    obtain ⟨c, hc, rfl⟩ := hsome h
    exact ⟨hword, hc⟩
  · rename_i hword
    obtain ⟨r, hr, rfl⟩ := hsome h
    exact ⟨.function, hword, hr⟩
  · rename_i hword
    obtain ⟨r, hr, rfl⟩ := hsome h
    exact ⟨.procedure, hword, hr⟩
  · exact absurd h hnone
  · rename_i hword
    obtain ⟨t?, mid, ht, hpure⟩ := returns_bind.1 h
    obtain ⟨hitem, rfl⟩ := returns_pure.1 hpure
    obtain ⟨t, rfl, rfl⟩ := Option.map_eq_some_iff.1 hitem.symm
    exact ⟨hword, ht⟩
  · rename_i hword
    obtain ⟨s, hs, rfl⟩ := hsome h
    exact ⟨hword, hs⟩
  · cases (returns_pure.1 h).1
  · cases (returns_pure.1 h).1
  · exact absurd (returns_log_bind.1 h) hnone

theorem docs_item? (hi : i.Commented) (hts : ts <:+ i.tokens) {item : Option Item}
    (h : Returns item? i ts item rest) :
    (∀ x ∈ item, x.Documented i.raw) ∧ Draws (item.toList.flatMap Item.docs) ts rest := by
  cases item with
  | none => exact ⟨by simp, .nil h.suffix⟩
  | some item =>
    have hkind := returns_of_item? h
    cases item with
    | field f => simpa [Item.Documented, Item.docs] using docs_variableField hi hts hkind
    | subtype s => simpa using docs_subtype hi hts hkind.1 hkind.2
    | routine r =>
      obtain ⟨kind, hword, hr⟩ := hkind
      simpa using docs_routine hi hts kind hword hr
    | cursor c => simpa using docs_cursor hi hts hkind.1 hkind.2
    | type t => simpa using docs_typeDecl? hi hts hkind.1 hkind.2

theorem docs_items (hi : i.Commented) (hts : ts <:+ i.tokens) {x : Ident} {y : List Item × Nat}
    (h : Returns (items x) i ts y rest) :
    (∀ item ∈ y.1, item.Documented i.raw) ∧ Draws (y.1.flatMap Item.docs) ts rest := by
  obtain ⟨found, mid, hloop, hpure⟩ := returns_bind.1 (returns_current_bind.1 h)
  obtain ⟨rfl, rfl⟩ := returns_pure.1 hpure
  have hend : (∀ item ∈ found.items, item.Documented i.raw) ∧
      Draws (found.items.reverse.flatMap Item.docs) ts rest := by
    -- the docs of the declarations so far were taken off on the way from `ts`
    refine Returns.iterate
      (fun found us => us <:+ ts ∧ (∀ item ∈ found.items, item.Documented i.raw) ∧
        Draws (found.items.reverse.flatMap Item.docs) ts us)
      (fun found us => (∀ item ∈ found.items, item.Documented i.raw) ∧
        Draws (found.items.reverse.flatMap Item.docs) ts us) ?_ ?_ ?_ hloop
    · rintro found t us x mid ⟨hus, hfound, hdraws⟩ - hround
      have hus' : us <:+ ts := (List.suffix_cons t us).trans hus
      have hdraws' := hdraws.forward (List.suffix_cons t us)
      rw [returns_itemStep] at hround
      split at hround
      · obtain ⟨last, hlast, rfl⟩ := hround
        exact ⟨hfound, hdraws'.forward hlast.suffix⟩
      · obtain ⟨item, hitem, rfl⟩ := hround
        obtain ⟨hdocumented, hmore⟩ := docs_item? hi (hus'.trans hts) hitem
        refine ⟨hitem.suffix.trans hus', fun y hy => ?_, ?_⟩
        · rcases List.mem_append.1 hy with hy | hy
          · exact hdocumented y (Option.mem_toList.1 hy)
          · exact hfound y hy
        · have hnext := hdraws'.append hmore
          cases item <;> simpa using hnext
    · rintro found ⟨-, hfound, hdraws⟩
      exact ⟨hfound, hdraws⟩
    · exact ⟨List.suffix_refl _, by simp, .nil (List.suffix_refl _)⟩
  exact ⟨fun item hitem => hend.1 item (List.mem_reverse.1 hitem), hend.2⟩

end Parser

/-! ## Packages -/

/-- A package keeps its declarations by kind, and all of them. -/
theorem Package.items_ofItems_perm (doc : Option CommentGroup) (name : Ident) (first last : Nat)
    (items : List Item) : (ofItems doc name first last items).items.Perm items := by
  induction items with
  | nil => rfl
  | cons item items ih =>
    refine List.Perm.trans (List.perm_iff_count.2 fun a => ?_) (ih.cons item)
    cases item <;>
      simp only [Package.items, ofItems, List.filterMap_cons, List.map_cons, List.count_append,
        List.count_cons] <;> omega

namespace Parser

variable {i : Input} {ts us rest : List DocToken}

theorem names_packageName (hi : i.Commented) {x : Ident} (h : Returns packageName i ts x rest) :
    Names (plainTokens ts) x := by
  obtain ⟨schema, n, behind, rfl, -, rfl, hschema⟩ := tokens_packageName hi.eof_kind h
  rcases hschema with rfl | ⟨q, dot, rfl, hdot⟩
  · exact ⟨n.token, plainTokens behind, rfl, .inl rfl⟩
  · exact ⟨n.token, plainTokens behind, rfl, .inr ⟨q.token, dot.token, hdot, rfl⟩⟩

theorem docs_package? (hi : i.Commented) (hts : ts <:+ i.tokens) {create : DocToken}
    {p? : Option Package} (h : Returns (package? create) i ts p? rest) :
    (∀ p ∈ p?, p.doc = create.leadDoc ∧ p.first = create.span.start ∧
        Names (plainTokens ts) p.name ∧ ∀ item ∈ p.items, item.Documented i.raw) ∧
      Draws (p?.toList.flatMap (·.items.flatMap Item.docs)) ts rest := by
  have hsuffix := h.suffix
  rw [returns_package?] at h
  split at h
  · obtain ⟨-, rfl⟩ := h
    exact ⟨by simp, .nil hsuffix⟩
  · obtain ⟨x, mid, items, last, hname, hitems, rfl⟩ := h
    obtain ⟨hdocumented, hdraws⟩ := docs_items hi (hname.suffix.trans hts) hitems
    refine ⟨fun p hp => ?_, ?_⟩
    · obtain rfl := Option.some.inj hp
      exact ⟨rfl, rfl, names_packageName hi hname,
        fun item hitem => hdocumented item (Package.mem_of_mem_items hitem)⟩
    · refine (hdraws.backward hname.suffix).subperm (List.Perm.subperm ?_)
      have hperm := Package.items_ofItems_perm create.leadDoc x create.span.start last items
      simpa using (hperm.flatMap_right Item.docs).flatMap_right CommentGroup.starts

/-! ## The search for packages -/

/-- The word `create` that is pending behind some tokens is the last of them, in the
    statement at their end. -/
theorem pendingCreate_cases {create? : Option DocToken} {c : DocToken}
    (h : ts.foldl pendingCreate create? = some c) :
    (create? = some c ∧ ∀ u ∈ ts, u.kind ≠ .keyword .create ∧ u.kind ≠ .op .semicolon) ∨
      ∃ before between, ts = before ++ c :: between ∧ c.kind = .keyword .create ∧
        ∀ u ∈ between, u.kind ≠ .keyword .create ∧ u.kind ≠ .op .semicolon := by
  induction ts generalizing create? with
  | nil => exact .inl ⟨h, by simp⟩
  | cons t ts ih =>
    rcases ih h with ⟨hpending, hts⟩ | ⟨before, between, rfl, hc, hbetween⟩
    · unfold pendingCreate at hpending
      split at hpending
      · rename_i hcreate
        obtain rfl := Option.some.inj hpending
        exact .inr ⟨[], ts, rfl, hcreate, hts⟩
      · cases hpending
      · rename_i hcreate hsemicolon
        exact .inl ⟨hpending, List.forall_mem_cons.2 ⟨⟨hcreate, hsemicolon⟩, hts⟩⟩
    · exact .inr ⟨t :: before, between, rfl, hc, hbetween⟩

theorem kind_of_splitPackage {create? : Option DocToken} {t : DocToken}
    (h : (splitPackage create? ts).2 = t :: us) : t.kind = .keyword .package := by
  induction ts generalizing create? with
  | nil => cases h
  | cons u ts ih =>
    unfold splitPackage at h
    split at h
    · rename_i hfound
      simp only [Bool.and_eq_true, decide_eq_true_eq] at hfound
      cases h
      exact hfound.1
    · exact ih h

/-- The word `create` that opens the statement at whose word `package` the parser
    is. -/
def Opens (i : Input) (create : DocToken) (us : List DocToken) : Prop :=
  ∃ before between t after, i.tokens = before ++ create :: between ++ t :: after ∧
    us = t :: after ∧ create.kind = .keyword .create ∧
    (∀ u ∈ between, u.kind ≠ .keyword .create ∧ u.kind ≠ .op .semicolon) ∧
    t.kind = .keyword .package

theorem opens_of_nextCreate? (hi : i.Commented) (hts : ts <:+ i.tokens) {create : DocToken}
    (h : Returns nextCreate? i ts (some create) rest) :
    Opens i create rest ∧ Draws create.leadDoc.toList ts rest := by
  obtain ⟨hrest, -, hcreate⟩ := returns_nextCreate?.1 h
  split at hcreate
  · cases hcreate
  · rename_i hne
    obtain ⟨t, after, rfl⟩ := List.exists_cons_of_ne_nil (by simpa using hne)
    rcases pendingCreate_cases hcreate.symm with ⟨hnone, -⟩ | ⟨before, between, hsplit, hkind, hbetween⟩
    · cases hnone
    · have happend := splitPackage_append none ts
      rw [hsplit, ← hrest] at happend
      obtain ⟨front, hfront⟩ := hts
      have hmem : create ∈ i.tokens := by simp [← hfront, ← happend]
      refine ⟨⟨front ++ before, between, t, after, ?_, rfl, hkind, hbetween,
        kind_of_splitPackage hrest.symm⟩, ?_⟩
      · rw [← hfront, ← happend]
        simp
      · have hsuffix : create :: (between ++ t :: after) <:+ ts := ⟨before, by simp [← happend]⟩
        exact .backward hsuffix
          (.of_attached (hi.attached create hmem) (fun g hg => .inl hg) ⟨between, rfl⟩)

/-- A package that is documented at its `create`. -/
theorem documented_of_opens (hi : i.Commented) {create t : DocToken} {p : Package}
    (h : Opens i create (t :: us)) (hdoc : p.doc = create.leadDoc)
    (hfirst : p.first = create.span.start) (hname : Names (plainTokens us) p.name)
    (hitems : ∀ item ∈ p.items, item.Documented i.raw) : p.Documented i.raw := by
  obtain ⟨before, between, t', after, htokens, heq, hkind, hbetween, hpackage⟩ := h
  obtain ⟨rfl, rfl⟩ := List.cons.inj heq
  have htokens' : i.tokens = before ++ create :: (between ++ t :: us) := by simpa using htokens
  have hmem : ∀ d ∈ between ++ t :: us, d ∈ i.tokens := by
    intro d hd
    rw [htokens']
    exact List.mem_append_right _ (List.mem_cons_of_mem _ hd)
  refine ⟨⟨before.flatMap DocToken.raw ++ create.skipped, create.token,
    between.flatMap DocToken.raw ++ t.skipped, t.token, us.flatMap DocToken.raw ++ i.eof.skipped,
    ?_, hkind, hfirst, ?_, hpackage, ?_, ?_⟩, hitems⟩
  · rw [Input.Scanned.raw_eq htokens']
    simp [DocToken.raw]
  · have hcomment : ∀ d ∈ between ++ t :: us, ∀ c ∈ d.skipped,
        c.kind ≠ .keyword .create ∧ c.kind ≠ .op .semicolon := by
      intro d hd c hc
      rw [hi.comments d (hmem d hd) c hc]
      simp
    intro u hu
    rcases List.mem_append.1 hu with hu | hu
    · obtain ⟨d, hd, hu⟩ := List.mem_flatMap.1 hu
      rcases List.mem_append.1 hu with hu | hu
      · exact hcomment d (by simp [hd]) u hu
      · rw [List.mem_singleton.1 hu]
        exact hbetween d hd
    · exact hcomment t (by simp) u hu
  · have hcomments : i.eof.skipped.filter (·.kind ≠ .comment) = [] := by
      simpa using hi.eof_comments
    rw [List.filter_append, hcomments, List.append_nil, Input.Scanned.filter_raw]
    · exact hname
    · intro d hd
      have hd' : d ∈ i.tokens := hmem d (by simp [hd])
      exact ⟨hi.plain d hd', hi.comments d hd'⟩
  · intro g hg
    exact hi.leads htokens' (.inl (show create.leadDoc = some g from hdoc ▸ hg))

/-- A round of the search: the docs of the package at hand are those of its `create`
    and those on the way. -/
theorem docs_round (hi : i.Commented) {create t : DocToken} {done : List Package}
    {p? : Option Package} (hopens : Opens i create (t :: us))
    (hdraws : Draws (done.reverse.flatMap Package.docs ++ create.leadDoc.toList) i.tokens (t :: us))
    (h : Returns (package? create) i us p? rest) :
    (∀ p ∈ p?, p.Documented i.raw) ∧
      Draws ((p?.toList ++ done).reverse.flatMap Package.docs) i.tokens rest := by
  obtain ⟨front, hfront⟩ : us <:+ i.tokens := by
    obtain ⟨before, between, t', after, htokens, heq, -⟩ := hopens
    obtain ⟨rfl, rfl⟩ := List.cons.inj heq
    exact ⟨before ++ create :: between ++ [t], by simp [htokens]⟩
  obtain ⟨hpackage, hmore⟩ := docs_package? hi ⟨front, hfront⟩ h
  have hall := (hdraws.forward (List.suffix_cons t us)).append hmore
  cases p? with
  | none =>
    refine ⟨by simp, hall.subperm (List.Sublist.subperm ?_)⟩
    simp only [Option.toList_none, List.nil_append, List.flatMap_append]
    exact (List.sublist_append_left _ _).trans (List.sublist_append_left _ _)
  | some p =>
    obtain ⟨hdoc, hfirst, hname, hitems⟩ := hpackage p rfl
    refine ⟨fun q hq => ?_, ?_⟩
    · obtain rfl := Option.some.inj hq
      exact documented_of_opens hi hopens hdoc hfirst hname hitems
    · simpa [Package.docs, hdoc] using hall

theorem docs_packages (hi : i.Commented) {ps : List Package}
    (h : Returns packages i i.tokens ps rest) :
    (∀ p ∈ ps, p.Documented i.raw) ∧ Draws (ps.flatMap Package.docs) i.tokens rest := by
  have hsuffix := h.suffix
  obtain ⟨create?, mid, hnext, hmore⟩ := returns_packages.1 h
  cases create? with
  | none =>
    rw [hmore.1]
    exact ⟨by simp, .nil hsuffix⟩
  | some create =>
    -- what has been taken off so far: the docs of the packages, and that of `create`
    refine Returns.iterate
      (fun s us => Opens i s.create us ∧ (∀ p ∈ s.packages, p.Documented i.raw) ∧
        Draws (s.packages.reverse.flatMap Package.docs ++ s.create.leadDoc.toList) i.tokens us)
      (fun ps us => (∀ p ∈ ps, p.Documented i.raw) ∧ Draws (ps.flatMap Package.docs) i.tokens us)
      ?_ ?_ ?_ hmore
    · rintro s t us x mid ⟨hopens, hdone, hdraws⟩ - hround
      obtain ⟨p?, mid', create?, hpackage, hnext, rfl⟩ := returns_packageStep.1 hround
      obtain ⟨hp, hdraws'⟩ := docs_round hi hopens hdraws hpackage
      have hall : ∀ p ∈ p?.toList ++ s.packages, p.Documented i.raw := by
        intro p hmem
        rcases List.mem_append.1 hmem with hmem | hmem
        · exact hp p (Option.mem_toList.1 hmem)
        · exact hdone p hmem
      cases create? with
      | none =>
        exact ⟨fun p hmem => hall p (List.mem_reverse.1 hmem), hdraws'.forward hnext.suffix⟩
      | some create' =>
        obtain ⟨taken, htaken, -⟩ := id hdraws'
        obtain ⟨hopens', hcreate⟩ := opens_of_nextCreate? hi ⟨taken, htaken.symm⟩ hnext
        exact ⟨hopens', hall, hdraws'.append hcreate⟩
    · rintro s ⟨-, hdone, hdraws⟩
      refine ⟨fun p hmem => hdone p (List.mem_reverse.1 hmem), hdraws.subperm ?_⟩
      rw [List.flatMap_append]
      exact (List.sublist_append_left _ _).subperm
    · obtain ⟨hopens, hcreate⟩ := opens_of_nextCreate? hi (List.suffix_refl _) hnext
      exact ⟨hopens, by simp, by simpa using hcreate⟩

end Parser

/-! ## Files -/

theorem Input.Scanned.nodup_starts {i : Input} (hi : i.Scanned) : (i.raw.map (·.pos)).Nodup := by
  obtain ⟨rest, hscans, -⟩ := hi.scans
  refine List.pairwise_map.2 (hscans.ordered.imp_of_mem fun {t u} ht _ hle heq => ?_)
  have hlt := hscans.start_lt_stop ht
  have heq : t.span.start = u.span.start := heq
  omega

theorem starts_sublist_raw (ds : List DocToken) :
    (ds.flatMap DocToken.starts).Sublist ((ds.flatMap DocToken.raw).map (·.pos)) := by
  induction ds with
  | nil => exact List.nil_sublist _
  | cons d ds ih =>
    rw [List.flatMap_cons, List.flatMap_cons, List.map_append]
    refine List.Sublist.append ?_ ih
    rw [DocToken.raw, List.map_append]
    exact List.sublist_append_left _ _

/-- What is taken off on the way through the input is taken off once. -/
theorem Draws.nodup {i : Input} (hi : i.Scanned) {docs : List CommentGroup} {rest : List DocToken}
    (h : Draws docs i.tokens rest) : (docs.flatMap CommentGroup.starts).Nodup := by
  obtain ⟨taken, htokens, hdocs⟩ := h
  have htaken : (taken.flatMap DocToken.starts).Sublist (i.raw.map (·.pos)) := by
    refine (starts_sublist_raw taken).trans ?_
    rw [Input.raw, htokens, List.flatMap_append, List.append_assoc, List.map_append]
    exact List.sublist_append_left _ _
  obtain ⟨starts, hperm, hstarts⟩ := hdocs
  exact hperm.nodup_iff.1 (hi.nodup_starts.sublist (hstarts.trans htaken))

/-- **Docs are comments of the source.**  In a file that is parsed, every doc is a
    run of comments with nothing but comments between it and the token that
    introduces its declaration, and no comment is in two docs. -/
theorem parse_docs {file : String} {source : ByteArray} {f : SourceFile}
    (h : (parse file source).result = .ok f) :
    ∃ raw, tokens? source = some raw ∧ (∀ p ∈ f.packages, p.Documented raw) ∧
      (f.docs.flatMap CommentGroup.starts).Nodup := by
  obtain ⟨text, rfl, hsize, hfault, hreturns⟩ := text_of_parse h
  have hi := Input.commented_ofText file hsize
  obtain ⟨hdocumented, hdraws⟩ := Parser.docs_packages hi hreturns
  exact ⟨_, hi.tokens?_source hfault, hdocumented, hdraws.nodup hi.toScanned⟩

/-- A source with docs of a package, a routine and its parameters, and comments that
    belong to nothing. -/
def docSource : ByteArray :=
  ("-- stale\n\n-- p\ncreate package p is -- q\n/* f */ -- g\nfunction f( -- a\n a t, b t) -- r\n" ++
    "return t; end;").toUTF8

theorem parse_docs_routine :
    ∃ f, (parse "a.pks" docSource).result = .ok f ∧
      f.docs.map (·.comments.map (·.text)) = [["-- p"], ["/* f */", "-- g"], ["-- a"]] ∧
      ∃ raw, tokens? docSource = some raw ∧ (∀ p ∈ f.packages, p.Documented raw) ∧
        (f.docs.flatMap CommentGroup.starts).Nodup := by
  have hparse : (parse "a.pks" docSource).result.toOption.map
      (fun f => f.docs.map (·.comments.map (·.text))) =
        some [["-- p"], ["/* f */", "-- g"], ["-- a"]] := by
    decide +kernel
  obtain ⟨f, hresult, hvalue⟩ := exists_ok_of_toOption hparse
  exact ⟨f, hresult, hvalue, parse_docs hresult⟩

end PackageDoc
