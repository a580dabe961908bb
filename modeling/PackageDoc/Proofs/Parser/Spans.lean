/-
  Spans lie in the source.

  Every span of a parsed file ends in the source and not before it starts
  (`parse_spans`).  Where a span is computed from a length, or by adding to an
  offset or taking away from it, the computation is exact: in a source below four
  gigabytes no sum stops at the greatest offset.
-/
import PackageDoc.Proofs.Comment.Returns
import PackageDoc.Proofs.Parser.Docs

namespace PackageDoc

open Text

/-! ## Spans in bounds -/

section
variable (source : ByteArray)

/-- A span that is in order and ends in the source. -/
def Span.InBounds (s : Span) : Prop := s.start ≤ s.stop ∧ s.stop ≤ source.size

/-- A comment in bounds; its span is as long as its text. -/
def Comment.InBounds (c : Comment) : Prop :=
  c.span.InBounds source ∧ c.span.stop = c.start + c.text.utf8ByteSize

/-- A group of comments in bounds. -/
def CommentGroup.InBounds (g : CommentGroup) : Prop :=
  g.span.InBounds source ∧ ∀ c ∈ g.comments, c.InBounds source

/-- The span, the doc and the name of a declaration in bounds. -/
def DeclInBounds (span : Span) (doc : Option CommentGroup) (name : Ident) : Prop :=
  span.InBounds source ∧ (∀ g ∈ doc, g.InBounds source) ∧ name.span.InBounds source

/-- A field in bounds. -/
def Field.InBounds (f : Field) : Prop :=
  DeclInBounds source f.span f.doc f.name ∧ (∀ x ∈ f.type?, x.span.InBounds source) ∧
    ∀ x ∈ f.default?, x.span.InBounds source

/-- A list of fields in bounds; its span ends behind the closing parenthesis. -/
def FieldList.InBounds (l : FieldList) : Prop :=
  l.span.InBounds source ∧ l.span.stop = l.closing + 1 ∧ ∀ f ∈ l.fields, f.InBounds source

/-- A query in bounds; its span is as long as its text. -/
def Sql.InBounds (q : Sql) : Prop :=
  q.span.InBounds source ∧ q.span.stop = q.start + q.text.utf8ByteSize

/-- The bound of an array in bounds.  Its span starts behind an opening parenthesis,
    and ends before the last byte of a token behind it or of the source. -/
def Ident.IsBound (x : Ident) : Prop :=
  x.span.InBounds source ∧ ∃ raw t stop, tokens? source = some raw ∧ t ∈ raw ∧
    t.kind = .op .openParen ∧ t.span.start < stop ∧ stop ≤ source.size ∧
    x.span = ⟨t.span.start + 1, max (stop - 1) (t.span.start + 1)⟩

/-- The definition of a type in bounds. -/
def TypeBody.InBounds : TypeBody → Prop
  | table element => element.span.InBounds source
  | varray bound element => (∀ x ∈ bound, x.IsBound source) ∧ element.span.InBounds source
  | record fields => fields.InBounds source
  | refCursor result => ∀ x ∈ result, x.span.InBounds source

/-- A declaration in bounds, with all its parts. -/
def Item.InBounds : Item → Prop
  | field f => f.InBounds source
  | subtype s => DeclInBounds source s.span s.doc s.name ∧ s.base.span.InBounds source
  | routine r => DeclInBounds source r.span r.doc r.name ∧
      (∀ l ∈ r.params, l.InBounds source) ∧ ∀ x ∈ r.result, x.span.InBounds source
  | cursor c => DeclInBounds source c.span c.doc c.name ∧
      (∀ l ∈ c.params, l.InBounds source) ∧ (∀ x ∈ c.result, x.span.InBounds source) ∧
      c.sql.InBounds source
  | type t => DeclInBounds source t.span t.doc t.name ∧ t.body.InBounds source

/-- A package in bounds, with all its declarations. -/
def Package.InBounds (p : Package) : Prop :=
  DeclInBounds source p.span p.doc p.name ∧ ∀ item ∈ p.items, item.InBounds source

end

/-! ## Spans of several parts -/

section
variable {source : ByteArray} {s t : Span}

theorem Span.InBounds.merge (hs : s.InBounds source) (ht : t.InBounds source) :
    (s.merge t).InBounds source := by
  obtain ⟨hs, hs'⟩ := hs
  obtain ⟨ht, ht'⟩ := ht
  constructor
  · simp only [Span.merge]
    omega
  · simp only [Span.merge]
    omega

theorem Span.InBounds.merge? {t? : Option Span} (hs : s.InBounds source)
    (ht : ∀ t ∈ t?, t.InBounds source) : (s.merge? t?).InBounds source := by
  cases t? with
  | none => exact hs
  | some t => exact hs.merge (ht t rfl)

theorem Span.InBounds.of_option {α : Type} {span : α → Span} {x? : Option α}
    (h : ∀ x ∈ x?, (span x).InBounds source) : ∀ t ∈ x?.map span, t.InBounds source := by
  intro t ht
  obtain ⟨x, hx, rfl⟩ := Option.map_eq_some_iff.1 ht
  exact h x hx

/-- A field is in bounds if its parts are. -/
theorem Field.inBounds_of_parts {f : Field} (hdoc : ∀ g ∈ f.doc, g.InBounds source)
    (hname : f.name.span.InBounds source) (htype : ∀ x ∈ f.type?, x.span.InBounds source)
    (hdefault : ∀ x ∈ f.default?, x.span.InBounds source) : f.InBounds source :=
  ⟨⟨(hname.merge? (.of_option htype)).merge? (.of_option hdefault), hdoc, hname⟩, htype, hdefault⟩

theorem addOffset_eq {m n : Nat} (h : m + n ≤ maxOffset) : addOffset m n = m + n :=
  Nat.min_eq_left h

theorem Span.ofLength_eq {start length : Nat} (h : start + length ≤ source.size)
    (hsize : source.size ≤ maxOffset) : Span.ofLength start length = ⟨start, start + length⟩ := by
  have hmin : min length maxOffset = length := Nat.min_eq_left (by omega)
  rw [Span.ofLength, hmin, addOffset_eq (by omega)]

theorem Span.inBounds_ofLength {start length : Nat} (h : start + length ≤ source.size)
    (hsize : source.size ≤ maxOffset) :
    (Span.ofLength start length).InBounds source ∧
      (Span.ofLength start length).stop = start + length := by
  rw [Span.ofLength_eq h hsize]
  exact ⟨⟨Nat.le_add_right _ _, h⟩, rfl⟩

theorem FieldList.inBounds_of_parts {l : FieldList} (hsize : source.size ≤ maxOffset)
    (hopening : l.opening ≤ l.closing) (hclosing : l.closing < source.size)
    (hfields : ∀ f ∈ l.fields, f.InBounds source) : l.InBounds source := by
  have hstop : l.span.stop = l.closing + 1 := by
    simp only [FieldList.span]
    rw [addOffset_eq (by omega)]
    omega
  refine ⟨⟨?_, ?_⟩, hstop, hfields⟩
  · rw [hstop]
    show l.opening ≤ l.closing + 1
    omega
  · rw [hstop]
    omega

end

theorem Scans.stop_le {o : Nat} {cs rest : List Char} {ts : List Token} (h : Scans o cs ts rest)
    {t : Token} (ht : t ∈ ts) : t.span.stop ≤ o + byteLength cs := by
  induction h with
  | nil => cases ht
  | @cons o gap lexeme piece mid rest kind ts hgap hread hscans ih =>
    simp only [byteLength_append]
    rcases List.mem_cons.1 ht with rfl | ht
    · simp only [Token.ofPiece]
      omega
    · have := ih ht
      omega

/-! ## Tokens -/

/-- An input that was scanned to its end, of a source with offsets that fit. -/
structure Input.Bounded (i : Input) : Prop extends Input.Commented i where
  eof_attached : i.eof.Attached
  reached : i.fault? = none

namespace Input.Bounded

variable {i : Input} {d : DocToken} {t : Token} {g : CommentGroup}

theorem small (hi : i.Bounded) : i.text.utf8Encode.size ≤ maxOffset := by
  rw [size_utf8Encode]
  exact hi.size_le

theorem raw_span (hi : i.Bounded) (ht : t ∈ i.raw) :
    t.span.start < t.span.stop ∧ t.span.stop ≤ i.text.utf8Encode.size := by
  obtain ⟨rest, hscans, -⟩ := hi.scans
  refine ⟨hscans.start_lt_stop ht, ?_⟩
  have := hscans.stop_le ht
  rw [size_utf8Encode]
  omega

theorem token_span (hi : i.Bounded) (hd : d ∈ i.tokens) :
    d.span.start < d.span.stop ∧ d.span.stop ≤ i.text.utf8Encode.size :=
  hi.raw_span (Input.Scanned.mem_raw hd)

theorem eof_span (hi : i.Bounded) :
    i.eof.span = ⟨i.text.utf8Encode.size, i.text.utf8Encode.size⟩ := by
  rw [DocToken.span, hi.eof hi.reached, size_utf8Encode]
  rfl

theorem span (hi : i.Bounded) (hd : d ∈ i.tokens ∨ d = i.eof) :
    d.span.InBounds i.text.utf8Encode := by
  rcases hd with hd | rfl
  · obtain ⟨hlt, hle⟩ := hi.token_span hd
    exact ⟨Nat.le_of_lt hlt, hle⟩
  · rw [hi.eof_span]
    exact ⟨Nat.le_refl _, Nat.le_refl _⟩

theorem comment (hi : i.Bounded) (ht : t ∈ i.raw) (hkind : t.kind = .comment) :
    (Comment.ofToken t).InBounds i.text.utf8Encode := by
  obtain ⟨hlt, hle⟩ := hi.raw_span ht
  obtain ⟨rest, hscans, -⟩ := hi.scans
  obtain ⟨m, lexeme, piece, mid, -, hread, htoken⟩ := hscans.reads_of_mem ht
  have hlength := hread.comment_le hkind
  have hsize : t.lexeme.utf8ByteSize = byteLength lexeme := by
    rw [htoken, ← size_utf8Encode, ← String.toByteArray_ofList]
    rfl
  have hstop : t.span.stop = t.pos + byteLength piece := by
    rw [htoken]
    rfl
  exact Span.inBounds_ofLength (by show t.pos + t.lexeme.utf8ByteSize ≤ _; omega) hi.small

theorem skipped_sublist (hd : d ∈ i.tokens ∨ d = i.eof) : d.skipped.Sublist i.raw := by
  rcases hd with hd | rfl
  · obtain ⟨before, after, htokens⟩ := List.append_of_mem hd
    rw [Input.Scanned.raw_eq htokens]
    exact (List.sublist_append_right _ _).trans (List.sublist_append_left _ _)
  · exact List.sublist_append_right _ _

/-- The groups of a token: they start with their first comment and end with their
    last one. -/
theorem group (hi : i.Bounded) (hd : d ∈ i.tokens ∨ d = i.eof)
    (hg : d.slots.lead = some g ∨ d.slots.line = some g) : g.InBounds i.text.utf8Encode := by
  have hattached : d.Attached := by
    rcases hd with hd | rfl
    · exact hi.attached d hd
    · exact hi.eof_attached
  have hkind : ∀ c ∈ d.skipped, c.kind = .comment := by
    rcases hd with hd | rfl
    · exact hi.comments d hd
    · exact hi.eof_comments
  obtain ⟨run, hrun, hcomments⟩ := hattached g hg
  have hraw : run.Sublist i.raw := hrun.sublist.trans (skipped_sublist hd)
  have hcomment : ∀ c ∈ run, (Comment.ofToken c).InBounds i.text.utf8Encode :=
    fun c hc => hi.comment (hraw.subset hc) (hkind c (hrun.subset hc))
  have hall : ∀ c ∈ g.comments, c.InBounds i.text.utf8Encode := by
    intro c hc
    rw [hcomments] at hc
    obtain ⟨t, ht, rfl⟩ := List.mem_map.1 hc
    exact hcomment t ht
  obtain ⟨rest, hscans, -⟩ := hi.scans
  have hordered := hscans.ordered.sublist hraw
  cases run with
  | nil => exact absurd hcomments g.nonempty
  | cons t run =>
    have hhead : g.comments.head g.nonempty = Comment.ofToken t := by simp [hcomments]
    have hlast : g.comments.getLast g.nonempty =
        Comment.ofToken ((t :: run).getLast (by simp)) := by
      simp only [hcomments, List.getLast_map]
    have hmem : (t :: run).getLast (by simp) ∈ t :: run := List.getLast_mem _
    generalize (t :: run).getLast (by simp) = u at hlast hmem
    have hstart : t.pos ≤ u.pos := by
      rcases List.mem_cons.1 hmem with rfl | hu
      · exact Nat.le_refl _
      · have hle := (List.pairwise_cons.1 hordered).1 u hu
        have hlt := (hi.raw_span (hraw.subset (by simp : t ∈ t :: run))).1
        exact Nat.le_trans (Nat.le_of_lt hlt) hle
    obtain ⟨⟨-, hle⟩, hstop⟩ := hcomment u hmem
    refine ⟨⟨?_, ?_⟩, hall⟩
    · simp only [CommentGroup.span, hhead, hlast, hstop]
      exact Nat.le_trans hstart (Nat.le_add_right _ _)
    · simpa only [CommentGroup.span, hlast] using hle

theorem leadDoc (hi : i.Bounded) (hd : d ∈ i.tokens ∨ d = i.eof) :
    ∀ g ∈ d.leadDoc, g.InBounds i.text.utf8Encode :=
  fun _ hg => hi.group hd (.inl hg)

theorem fieldDoc (hi : i.Bounded) (hd : d ∈ i.tokens ∨ d = i.eof) :
    ∀ g ∈ d.fieldDoc, g.InBounds i.text.utf8Encode :=
  fun _ hg => hi.group hd (DocToken.mem_fieldDoc hg)

theorem ofTokens? (hi : i.Bounded) {ts : List DocToken} (hts : ts <:+: i.tokens) :
    ∀ x ∈ Ident.ofTokens? (plainTokens ts), x.span.InBounds i.text.utf8Encode := by
  intro x hx
  unfold Ident.ofTokens? at hx
  split at hx
  · rename_i first last hfirst hlast
    obtain rfl := Option.some.inj hx
    have hmem : ∀ t ∈ plainTokens ts, t ∈ i.raw := by
      intro t ht
      obtain ⟨d, hd, rfl⟩ := List.mem_map.1 ht
      exact Input.Scanned.mem_raw (hts.subset hd)
    have hfirst := hi.raw_span (hmem first (List.mem_of_head? hfirst))
    have hlast := hi.raw_span (hmem last (List.mem_of_getLast? hlast))
    constructor
    · exact Nat.le_max_right _ _
    · exact Nat.max_le.2 ⟨hlast.2, by omega⟩
  · cases hx

theorem ofTokens (hi : i.Bounded) {ts : List DocToken} (hts : ts <:+: i.tokens)
    (hd : d ∈ i.tokens ∨ d = i.eof) :
    (Ident.ofTokens d.span.start (plainTokens ts)).span.InBounds i.text.utf8Encode := by
  unfold Ident.ofTokens
  cases htext : Ident.ofTokens? (plainTokens ts) with
  | none =>
    obtain ⟨hle, hle'⟩ := hi.span hd
    exact ⟨Nat.le_refl _, Nat.le_trans hle hle'⟩
  | some x => exact hi.ofTokens? hts x htext

end Input.Bounded

namespace Parser

variable {i : Input} {ts rest : List DocToken}

/-! ## Fields -/

theorem spans_name (hi : i.Bounded) :
    Ensures i name fun x => x.span.InBounds i.text.utf8Encode := by
  refine (Ensures.name (by simp [hi.eof_kind])).weaken ?_
  rintro x ⟨t, ht, -, rfl⟩
  exact hi.span (.inl ht)

theorem spans_nextName (hi : i.Bounded) :
    Ensures i nextName fun x => x.span.InBounds i.text.utf8Encode :=
  .bind .advance fun _ _ => spans_name hi

theorem spans_variableField (hi : i.Bounded) :
    Ensures i variableField fun f => f.InBounds i.text.utf8Encode := by
  refine .bind .current fun t ht => .bind (spans_name hi) fun x hx => ?_
  have hdoc := hi.leadDoc ht
  refine .bind .advance fun _ _ => .bind (.isAt _) fun exception _ => ?_
  refine .ite (fun _ => .pure (Field.inBounds_of_parts hdoc hx (by simp [Field.ofException])
    (by simp [Field.ofException]))) fun _ => ?_
  refine .bind (.isAt _) fun constant _ => .when .advance ?_
  refine .bind .current fun u hu => .bind (.takeTo _) fun ts hts => .pure ?_
  have htype := hi.ofTokens ((splitDefault_isPrefix 0 ts).isInfix.trans hts) hu
  have hdefault := hi.ofTokens? ((splitDefault_suffix 0 ts).isInfix.trans hts)
  have htype : ∀ x ∈ some (Ident.ofTokens u.span.start (plainTokens (splitDefault 0 ts).1)),
      x.span.InBounds i.text.utf8Encode := by
    simpa using htype
  cases constant with
  | true => exact Field.inBounds_of_parts hdoc hx htype hdefault
  | false => exact Field.inBounds_of_parts hdoc hx htype hdefault

theorem spans_paramDefault (hi : i.Bounded) :
    Ensures i paramDefault fun d => ∀ x ∈ d, x.span.InBounds i.text.utf8Encode := by
  refine .bind .current fun t _ => .ite (fun _ => ?_) fun _ => .pure (by simp)
  refine .bind .advance fun _ _ => .bind (.takeNested _) fun ts hts => .bind .atEnd fun _ _ => ?_
  exact .when .advance (.pure (hi.ofTokens? hts))

theorem spans_param (hi : i.Bounded) :
    Ensures i param fun f => f.InBounds i.text.utf8Encode := by
  refine .bind .current fun t ht => .bind .advance fun _ _ => ?_
  refine .bind ensures_passMode fun mode _ => ?_
  refine .bind .current fun word _ => .when .advance (.bind .current fun first hfirst => ?_)
  refine .when (.require _) (.bind (.takeNested _) fun ts hts => ?_)
  refine .bind (spans_paramDefault hi) fun d hd => .pure ?_
  have htype := hi.ofTokens hts hfirst
  exact Field.inBounds_of_parts (hi.fieldDoc ht) (hi.span ht)
    (by simpa [Field.ofParameter] using htype) hd

theorem spans_fieldStep (hi : i.Bounded) (opening : Nat) (done : List Field)
    (hdone : ∀ f ∈ done, f.InBounds i.text.utf8Encode) :
    Ensures i (fieldStep opening done)
      (Sum.elim (fun fs => ∀ f ∈ fs, f.InBounds i.text.utf8Encode)
        fun l => ∀ f ∈ l.fields, f.InBounds i.text.utf8Encode) := by
  refine .bind (spans_param hi) fun f hf => ?_
  have hmore := List.forall_mem_cons.2 ⟨hf, hdone⟩
  refine .bind .current fun t _ => .ite (fun _ => .pure ?_) fun _ => ?_
  · exact fun f' hf' => hmore f' (List.mem_reverse.1 hf')
  · exact .bind (.require _) fun _ _ => .pure hmore

theorem spans_fields (hi : i.Bounded) :
    Ensures i fieldList fun l => ∀ f ∈ l.fields, f.InBounds i.text.utf8Encode := by
  refine .bind .current fun t _ => .bind ?_ fun l hl => .bind .advance fun _ _ => .pure hl
  refine .iterate (fun fs hfs => spans_fieldStep hi t.span.start fs hfs) (fun fs hfs => ?_) ?_
  · simpa using hfs
  · simp

theorem inBounds_fieldList (hi : i.Bounded) (hts : ts <:+ i.tokens) {l : FieldList}
    (hopen : (i.current ts).kind = .op .openParen) (h : Returns fieldList i ts l rest) :
    l.InBounds i.text.utf8Encode := by
  obtain ⟨t, ts, rfl, -⟩ := cons_of_current hi.eof_kind hopen (by simp)
  obtain ⟨hopening, u, hsuffix, -, hclosing⟩ := closing_of_fieldList hi.toScanned h
  have hu : u ∈ ts := hsuffix.subset (by simp)
  have hfields := (spans_fields hi).result hts h
  obtain ⟨before, hbefore⟩ := hts
  obtain ⟨-, hlt, hafter⟩ := hi.order_at hbefore
  have hle := hafter u hu
  have hspan := hi.token_span (d := u) (by simp [← hbefore, hu])
  exact FieldList.inBounds_of_parts hi.small (by omega) (by omega) hfields

theorem spans_fieldList? (hi : i.Bounded) :
    Ensures i fieldList? fun l? => ∀ l ∈ l?, l.InBounds i.text.utf8Encode := by
  refine ((ensures_fieldList? hi.toSmall).weaken fun _ _ => trivial).of_returns ?_
  intro ts l? rest hts h
  rw [returns_fieldList?] at h
  split at h
  · rename_i hopen
    obtain ⟨l, hl, rfl⟩ := h
    simpa using inBounds_fieldList hi hts hopen hl
  · obtain ⟨rfl, -⟩ := h
    simp

/-! ## Types -/

/-- The bound of an array stands between two tokens, or between a token and the
    end. -/
theorem spans_arrayBound? (hi : i.Bounded) :
    Ensures i arrayBound? fun b => ∀ x ∈ b, x.IsBound i.text.utf8Encode := by
  refine ((ensures_arrayBound? hi.toSmall).weaken fun _ _ => trivial).of_returns ?_
  intro ts b rest hts h
  rw [returns_arrayBound?] at h
  split at h
  · rename_i hopen
    obtain ⟨g, hgroup, rfl⟩ := h
    obtain ⟨t, us, rfl, -⟩ := cons_of_current hi.eof_kind hopen (by simp)
    obtain ⟨-, hclosing, -, -⟩ := returns_group.1 hgroup
    have hsuffix : rest <:+ us := hclosing ▸ ⟨_, splitNested_append _ 0 us⟩
    obtain ⟨before, hbefore⟩ := hts
    obtain ⟨-, hlt, hafter⟩ := hi.order_at hbefore
    have ht := hi.token_span (d := t) (by simp [← hbefore])
    have hstop : t.span.start < (i.current rest).span.stop ∧
        (i.current rest).span.stop ≤ i.text.utf8Encode.size := by
      cases rest with
      | nil =>
        rw [Input.current, List.headD_nil, hi.eof_span]
        exact ⟨by simp only; omega, Nat.le_refl _⟩
      | cons u rest =>
        have hu : u ∈ us := hsuffix.subset (by simp)
        have hspan := hi.token_span (d := u) (by simp [← hbefore, hu])
        have hle := hafter u hu
        exact ⟨by show t.span.start < u.span.stop; omega, hspan.2⟩
    intro x hx
    obtain rfl := Option.some.inj hx
    refine ⟨⟨Nat.le_max_right _ _, Nat.max_le.2 ⟨by omega, ?_⟩⟩, i.raw, t.token, _,
      hi.tokens?_source hi.reached, Input.Scanned.mem_raw (by simp [← hbefore]), hopen,
      hstop.1, hstop.2, rfl⟩
    show t.span.start + 1 ≤ _
    omega
  · obtain ⟨rfl, -⟩ := h
    simp

theorem spans_typeTail (hi : i.Bounded) :
    Ensures i typeTail fun x => x.span.InBounds i.text.utf8Encode :=
  .bind .advance fun _ _ => .bind .current fun _ ht => .bind (.takeTo _) fun _ hts =>
    .pure (hi.ofTokens hts ht)

theorem spans_tableType (hi : i.Bounded) :
    Ensures i tableType fun d => d.InBounds i.text.utf8Encode :=
  .bind .advance fun _ _ => .bind (.skipTo _) fun _ _ => .bind (spans_typeTail hi) fun _ hx =>
    .pure hx

theorem spans_arrayType (hi : i.Bounded) :
    Ensures i arrayType fun d => d.InBounds i.text.utf8Encode :=
  .bind .advance fun _ _ => .bind (spans_arrayBound? hi) fun _ hb => .bind (.skipTo _) fun _ _ =>
    .bind (spans_typeTail hi) fun _ hx => .pure ⟨hb, hx⟩

theorem spans_recordType (hi : i.Bounded) :
    Ensures i recordType fun d => d.InBounds i.text.utf8Encode := by
  refine ((ensures_recordType hi.toSmall).weaken fun _ _ => trivial).of_returns ?_
  intro ts d rest hts h
  obtain ⟨-, h⟩ := returns_advance_bind.1 h
  obtain ⟨hopen, h⟩ := returns_require_bind.1 h
  obtain ⟨l, mid, hl, hpure⟩ := returns_bind.1 h
  obtain ⟨rfl, -⟩ := returns_pure.1 hpure
  exact inBounds_fieldList hi (ts.tail_suffix.trans hts) hopen hl

theorem spans_refCursorType (hi : i.Bounded) :
    Ensures i refCursorType fun d => d.InBounds i.text.utf8Encode := by
  refine .bind .advance fun _ _ => .bind (.require _) fun _ _ => .bind .advance fun _ _ => ?_
  refine .bind (.isAt _) fun _ _ => .ite (fun _ => .pure ?_) fun _ => ?_
  · simp [TypeBody.InBounds]
  · refine .bind (.require _) fun _ _ => .bind (spans_typeTail hi) fun x hx => .pure ?_
    simpa [TypeBody.InBounds] using hx

theorem spans_typeBody? (hi : i.Bounded) (name : Ident) :
    Ensures i (typeBody? name) fun d? => ∀ d ∈ d?, d.InBounds i.text.utf8Encode := by
  refine .bind .current fun t _ => ?_
  split
  · exact .bind (spans_tableType hi) fun _ hd => .pure (by simpa using hd)
  · exact .bind (spans_arrayType hi) fun _ hd => .pure (by simpa using hd)
  · exact .bind (spans_recordType hi) fun _ hd => .pure (by simpa using hd)
  · exact .bind (spans_refCursorType hi) fun _ hd => .pure (by simpa using hd)
  · exact .bind (.log _) fun _ _ => .bind (.skipTo _) fun _ _ => .pure (by simp)

theorem spans_typeDecl? (hi : i.Bounded) :
    Ensures i typeDecl? fun t? => ∀ t ∈ t?, (Item.type t).InBounds i.text.utf8Encode := by
  refine .bind .current fun t ht => .bind (spans_nextName hi) fun x hx => ?_
  refine .bind .advance fun _ _ => .bind (.require _) fun _ _ => .bind .advance fun _ _ => ?_
  refine .bind (spans_typeBody? hi x) fun d? hd => .pure fun t' ht' => ?_
  obtain ⟨d, hd', rfl⟩ := Option.map_eq_some_iff.1 ht'
  have hd := hd d hd'
  refine ⟨⟨?_, hi.leadDoc ht, hx⟩, hd⟩
  cases d with
  | table element => exact hx.merge hd
  | record fields => exact hx.merge hd.1
  | refCursor result => exact hx.merge? (.of_option hd)
  | varray bound element =>
    cases bound with
    | none => exact hx.merge hd.2
    | some bound => exact (hx.merge (hd.1 bound rfl).1).merge hd.2

theorem spans_subtype (hi : i.Bounded) :
    Ensures i subtype fun s => (Item.subtype s).InBounds i.text.utf8Encode := by
  refine .bind .current fun t ht => .bind (spans_nextName hi) fun x hx => ?_
  refine .bind .advance fun _ _ => .bind (.require _) fun _ _ => .bind (spans_typeTail hi) fun y hy => .pure ?_
  exact ⟨⟨hx.merge hy, hi.leadDoc ht, hx⟩, hy⟩

/-! ## Routines and cursors -/

theorem spans_functionResult (hi : i.Bounded) :
    Ensures i functionResult fun x => x.span.InBounds i.text.utf8Encode :=
  .bind (.require _) fun _ _ => .bind .advance fun _ _ => .bind .current fun _ ht =>
    .bind (.takeTo _) fun _ hts => .pure (hi.ofTokens hts ht)

/-- A routine is in bounds if its parts are. -/
theorem inBounds_routine {source : ByteArray} {r : Routine} (hdoc : ∀ g ∈ r.doc, g.InBounds source)
    (hname : r.name.span.InBounds source) (hparams : ∀ l ∈ r.params, l.InBounds source)
    (hresult : ∀ x ∈ r.result, x.span.InBounds source) : (Item.routine r).InBounds source :=
  have hspan := hname.merge? (.of_option fun l hl => (hparams l hl).1)
  ⟨⟨hspan.merge? (.of_option hresult), hdoc, hname⟩, hparams, hresult⟩

theorem spans_routine (hi : i.Bounded) :
    Ensures i routine fun r => (Item.routine r).InBounds i.text.utf8Encode := by
  refine .bind .current fun t ht => .bind (spans_nextName hi) fun x hx => ?_
  refine .bind .advance fun _ _ => ?_
  have hdoc := hi.leadDoc ht
  refine .bind (spans_fieldList? hi) fun l? hl => .ite (fun _ => ?_) fun _ => ?_
  · exact .bind (.skipTo _) fun _ _ => .pure (inBounds_routine hdoc hx hl (by simp))
  · refine .bind (spans_functionResult hi) fun y hy => .bind (.takeTo _) fun _ _ => .pure ?_
    exact inBounds_routine hdoc hx hl (by simpa using hy)

theorem spans_cursorResult? (hi : i.Bounded) :
    Ensures i cursorResult? fun x? => ∀ x ∈ x?, x.span.InBounds i.text.utf8Encode := by
  refine .bind (.isAt _) fun _ _ => .ite (fun _ => ?_) fun _ => .pure (by simp)
  refine .bind .advance fun _ _ => .bind .current fun t ht => .bind (.takeTo _) fun ts hts => ?_
  exact .pure (by simpa using hi.ofTokens hts ht)

/-- A query ends where the parser gets to, and an empty one where it starts. -/
theorem spans_cursorQuery (hi : i.Bounded) :
    Ensures i cursorQuery fun q => q.InBounds i.text.utf8Encode := by
  refine ensures_cursorQuery.of_returns fun ts q rest hts h => ?_
  have hspan {us : List DocToken} (hus : us <:+ i.tokens) :
      (i.current us).span.start ≤ i.text.utf8Encode.size := by
    have := hi.span (Ensures.current.result hus (returns_current.2 ⟨rfl, rfl⟩))
    exact this.1.trans this.2
  have hrest := hspan (h.suffix.trans hts)
  rw [returns_cursorQuery] at h
  split at h
  · obtain ⟨rfl, rfl⟩ := h
    exact Span.inBounds_ofLength hrest hi.small
  · obtain ⟨opened, hopened, -, hquery, rfl⟩ := h
    have hsuffix : opened.tail <:+ i.tokens := (opened.tail_suffix.trans hopened.suffix).trans hts
    obtain ⟨hstop, -⟩ := extract_slice hi.toScanned hi.reached hsuffix hquery.suffix rfl rfl
    exact Span.inBounds_ofLength (hstop.trans_le hrest) hi.small

theorem spans_cursor (hi : i.Bounded) :
    Ensures i cursor fun c => (Item.cursor c).InBounds i.text.utf8Encode := by
  refine .bind .current fun t ht => .bind (spans_nextName hi) fun x hx => ?_
  refine .bind .advance fun _ _ => .bind (spans_fieldList? hi) fun l? hl => ?_
  refine .bind (spans_cursorResult? hi) fun y? hy => ?_
  refine .bind (spans_cursorQuery hi) fun q hq => .pure ⟨⟨?_, hi.leadDoc ht, hx⟩, hl, hy, hq⟩
  exact ((hx.merge hq.1).merge? (.of_option fun l hl' => (hl l hl').1)).merge? (.of_option hy)

/-! ## Packages -/

theorem spans_item? (hi : i.Bounded) :
    Ensures i item? fun item? => ∀ item ∈ item?, item.InBounds i.text.utf8Encode := by
  refine .bind .current fun t _ => ?_
  split
  · exact .bind ensures_directive fun _ _ => .pure (by simp)
  · exact .bind (spans_variableField hi) fun f hf => .pure (by simpa [Item.InBounds] using hf)
  · exact .bind (spans_cursor hi) fun c hc => .pure (by simpa using hc)
  · exact .bind (spans_routine hi) fun r hr => .pure (by simpa using hr)
  · exact .bind (spans_routine hi) fun r hr => .pure (by simpa using hr)
  · exact .bind (.skipTo _) fun _ _ => .pure (by simp)
  · refine .bind (spans_typeDecl? hi) fun t? ht => .pure fun item hitem => ?_
    obtain ⟨t, ht', rfl⟩ := Option.map_eq_some_iff.1 hitem
    exact ht t ht'
  · exact .bind (spans_subtype hi) fun s hs => .pure (by simpa using hs)
  · exact .pure (by simp)
  · exact .pure (by simp)
  · exact .bind (.log _) fun _ _ => .bind (.skipTo _) fun _ _ => .pure (by simp)

theorem spans_packageEnd (hi : i.Bounded) (name : Ident) :
    Ensures i (packageEnd name) (· ≤ i.text.utf8Encode.size) := by
  refine .bind .current fun u hu => .bind .advance fun _ _ => .bind .current fun t ht => ?_
  refine .ite (fun _ => ?_) fun _ => .pure (hi.span hu).2
  exact .ite (fun _ => .pure (hi.span ht).2) fun _ => .fail _

/-- What was found so far in bounds. -/
def Found.InBounds (source : ByteArray) (found : Found) : Prop :=
  (∀ item ∈ found.items, item.InBounds source) ∧ found.last ≤ source.size

theorem spans_itemStep (hi : i.Bounded) (name : Ident) (found : Found)
    (hfound : found.InBounds i.text.utf8Encode) :
    Ensures i (itemStep name found) (Sum.elim (Found.InBounds i.text.utf8Encode)
      (Found.InBounds i.text.utf8Encode)) := by
  obtain ⟨hitems, -⟩ := hfound
  refine .bind .current fun t ht => .ite (fun _ => ?_) fun _ => ?_
  · exact .bind (spans_packageEnd hi name) fun _ hlast => .pure ⟨hitems, hlast⟩
  · have hspan := hi.span ht
    refine .bind (spans_item? hi) fun item? hitem => .pure ⟨?_, hspan.1.trans hspan.2⟩
    intro item hmem
    rcases List.mem_append.1 hmem with hmem | hmem
    · exact hitem item (Option.mem_toList.1 hmem)
    · exact hitems item hmem

theorem spans_items (hi : i.Bounded) (name : Ident) :
    Ensures i (items name) fun x =>
      (∀ item ∈ x.1, item.InBounds i.text.utf8Encode) ∧ x.2 ≤ i.text.utf8Encode.size := by
  refine .bind .current fun t ht => .bind (.iterate (spans_itemStep hi name) ?_ ?_) fun x hx => ?_
  · exact fun found hfound => hfound
  · have hspan := hi.span ht
    exact ⟨by simp, hspan.1.trans hspan.2⟩
  · exact .pure ⟨fun item hitem => hx.1 item (List.mem_reverse.1 hitem), hx.2⟩

theorem spans_packageName (hi : i.Bounded) :
    Ensures i packageName fun x => x.span.InBounds i.text.utf8Encode := by
  refine .bind (spans_name hi) fun x hx => .bind .advance fun _ _ => .bind (.isAt _) fun _ _ => ?_
  refine .ite (fun _ => ?_) fun _ => ?_
  · refine .bind (spans_nextName hi) fun y hy => .bind .advance fun _ _ => ?_
    exact .bind (.takeTo _) fun _ _ => .pure hy
  · exact .bind (.takeTo _) fun _ _ => .pure hx

/-- A package goes from its `create` to its end. -/
theorem spans_package? (hi : i.Bounded) {create : DocToken} (hcreate : create ∈ i.tokens) :
    Ensures i (package? create) fun p? => ∀ p ∈ p?, p.InBounds i.text.utf8Encode := by
  refine .bind (.isAt _) fun _ _ => .ite (fun _ => ?_) fun _ => ?_
  · exact .bind ensures_packageBody fun _ _ => .pure (by simp)
  · refine .bind (spans_packageName hi) fun x hx => .bind (spans_items hi x) fun y hy => ?_
    refine .bind (.log _) fun _ _ => .pure fun p hp => ?_
    cases hp
    obtain ⟨hlt, hle⟩ := hi.token_span hcreate
    refine ⟨⟨⟨Nat.le_max_right _ _, Nat.max_le.2 ⟨hy.2, ?_⟩⟩, hi.leadDoc (.inl hcreate), hx⟩, ?_⟩
    · exact (Nat.le_of_lt hlt).trans hle
    · exact fun item hitem => hy.1 item (Package.mem_of_mem_items hitem)

theorem spans_nextCreate? : Ensures i nextCreate? fun create? => ∀ t ∈ create?, t ∈ i.tokens := by
  refine .bind (.passTo _ _) fun before hbefore => .bind .atEnd fun atEnd _ => .pure fun t ht => ?_
  cases atEnd with
  | true => cases ht
  | false =>
    rcases pendingCreate_cases ht with ⟨hnone, -⟩ | ⟨front, between, rfl, -, -⟩
    · cases hnone
    · exact hbefore.subset (by simp)

/-- The packages found so far in bounds, with a statement at hand that is one of the
    input. -/
def Search.InBounds (i : Input) (s : Search) : Prop :=
  s.create ∈ i.tokens ∧ ∀ p ∈ s.packages, p.InBounds i.text.utf8Encode

theorem spans_packageStep (hi : i.Bounded) (s : Search) (hs : s.InBounds i) :
    Ensures i (packageStep s)
      (Sum.elim (Search.InBounds i) fun ps => ∀ p ∈ ps, p.InBounds i.text.utf8Encode) := by
  obtain ⟨hcreate, hdone⟩ := hs
  refine .bind (spans_package? hi hcreate) fun p? hp => .bind spans_nextCreate? fun c? hc => ?_
  have hmore : ∀ p ∈ p?.toList ++ s.packages, p.InBounds i.text.utf8Encode := by
    intro p hmem
    rcases List.mem_append.1 hmem with hmem | hmem
    · exact hp p (Option.mem_toList.1 hmem)
    · exact hdone p hmem
  cases c? with
  | some c => exact .pure ⟨hc c rfl, hmore⟩
  | none => exact .pure fun p hmem => hmore p (List.mem_reverse.1 hmem)

theorem spans_packages (hi : i.Bounded) :
    Ensures i packages fun ps => ∀ p ∈ ps, p.InBounds i.text.utf8Encode := by
  refine .bind spans_nextCreate? fun create? hcreate => ?_
  cases create? with
  | none => exact .pure (by simp)
  | some create =>
    refine .iterate (spans_packageStep hi) (fun s hs p hmem => ?_) ⟨hcreate create rfl, by simp⟩
    exact hs.2 p (List.mem_reverse.1 hmem)

end Parser

/-! ## Files -/

theorem Input.bounded_ofText {file : String} {text : List Char}
    (hfault : (Input.ofText file text).fault? = none) (hsize : text.utf8Encode.size ≤ maxOffset) :
    (Input.ofText file text).Bounded :=
  ⟨Input.commented_ofText file hsize, attached_attachFrom_eof _ _ _ _ _, hfault⟩

/-- **Spans lie in the source.**  In a file that is parsed, so from a source below four
    gigabytes, every span is in order and ends in the source. -/
theorem parse_spans {file : String} {source : ByteArray} {f : SourceFile}
    (h : (parse file source).result = .ok f) : ∀ p ∈ f.packages, p.InBounds source := by
  obtain ⟨text, rfl, hsize, hfault, hreturns⟩ := text_of_parse h
  have hi := Input.bounded_ofText hfault hsize
  exact (Parser.spans_packages hi).result (List.suffix_refl _) hreturns

/-- A source that stops inside the bound of an array, with a comment that has a
    carriage return in it, a variable without a type and a cursor without a query. -/
def cutSource : ByteArray :=
  "/* p\r\n */\ncreate package p is x; cursor c; type v is varray(".toUTF8

theorem parse_spans_cut :
    ∃ f, (parse "a.pks" cutSource).result = .ok f ∧
      f.packages.map (fun p => (p.doc.map (·.span), p.span, p.items.map Item.span)) =
        [(some ⟨0, 8⟩, ⟨10, 43⟩, [⟨30, 31⟩, ⟨40, 41⟩, ⟨48, 60⟩])] ∧
      ∀ p ∈ f.packages, p.InBounds cutSource := by
  have hparse : (parse "a.pks" cutSource).result.toOption.map
      (fun f => f.packages.map fun p => (p.doc.map (·.span), p.span, p.items.map Item.span)) =
        some [(some ⟨0, 8⟩, ⟨10, 43⟩, [⟨30, 31⟩, ⟨40, 41⟩, ⟨48, 60⟩])] := by
    decide +kernel
  obtain ⟨f, hresult, hvalue⟩ := exists_ok_of_toOption hparse
  exact ⟨f, hresult, hvalue, parse_spans hresult⟩

end PackageDoc
