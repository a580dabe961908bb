/-
  The texts of a file and their source.

  A name, a type or a value of a file is put together from tokens, and its span
  tells where they were read.  The span is right: the source that it covers,
  scanned by itself, holds just the tokens that give the text
  (`Ident.Reassembled`).  There are two exceptions, the name of a parameter that
  is a string, which loses its quotes (`Ident.Literal`), and the bound of an array
  that is not closed (`Ident.Unclosed`).  The query of a cursor is a copy of the
  source, from the token behind the word that opens it up to the semicolon
  (`Cursor.Encloses`).

  Main statement: `parse_reassembled`.
-/
import PackageDoc.Proofs.Parser.Ensures
import PackageDoc.Proofs.Parser.Returns
import PackageDoc.Proofs.Parser.Source

namespace PackageDoc

open Text

/-! ## Texts and their source -/

section
variable (source : ByteArray)

/-- The text is the one that the tokens of its source give. -/
def Ident.Reassembled (x : Ident) : Prop :=
  ∃ ts, tokens? (source.extract x.span.start x.span.stop) = some ts ∧
    tokensText (ts.filter (·.kind ≠ .comment)) = x.name

/-- The text is what stands between the quotes of a string. -/
def Ident.Literal (x : Ident) : Prop :=
  ∃ t, tokens? (source.extract x.span.start x.span.stop) = some [t] ∧ t.kind = .string ∧
    t.lexeme = x.name

/-- The text starts behind a parenthesis that the rest of the source does not
    close: wherever it is cut, it has closed no more than it has opened. -/
def Ident.Unclosed (x : Ident) : Prop :=
  ∃ ts before t after, tokens? source = some ts ∧
    ts.filter (·.kind ≠ .comment) = before ++ t :: after ∧ t.kind = .op .openParen ∧
    x.span.start = t.span.stop ∧ ∀ front, front <+: after →
      front.countP (·.kind = .op .closeParen) ≤ front.countP (·.kind = .op .openParen)

/-- The type and the default value of a field. -/
def Field.TextsReassembled (f : Field) : Prop :=
  (∀ x ∈ f.type?, x.Reassembled source) ∧ ∀ x ∈ f.default?, x.Reassembled source

/-- A field of a list, whose name may be a string. -/
def Field.ListedReassembled (f : Field) : Prop :=
  (f.name.Reassembled source ∨ f.name.Literal source) ∧ f.TextsReassembled source

/-- The fields of a list. -/
def FieldList.Reassembled (l : FieldList) : Prop := ∀ f ∈ l.fields, f.ListedReassembled source

/-- Where the signature of a cursor ends. -/
def Cursor.signatureStop (c : Cursor) : Nat :=
  max c.name.span.stop
    (max ((c.params.map (·.closing + 1)).getD 0) ((c.result.map (·.span.stop)).getD 0))

/-- Where the query of a cursor ends, being as long as its text. -/
def Cursor.queryStop (c : Cursor) : Nat := c.sql.start + c.sql.text.utf8ByteSize

/-- The tokens of the source around the query of a cursor: `opening` is the first
    `is` behind its signature, the query starts with the token behind it, and it
    stops at the next semicolon or at the end of the source. -/
structure Cursor.Encloses (c : Cursor) (before : List Token) (opening : Token)
    (query after : List Token) : Prop where
  tokens : (tokens? source).map (·.filter (·.kind ≠ .comment)) =
    some (before ++ opening :: query ++ after)
  opens : opening.kind = .keyword .is
  behind : c.signatureStop ≤ opening.span.start
  first : ∀ t ∈ before, t.kind = .keyword .is → t.span.start < c.signatureStop
  start : query.head?.map (·.span.start) = some c.sql.start
  inside : ∀ t ∈ query, t.kind ≠ .op .semicolon
  semicolon : ∀ t ∈ after.head?, t.kind = .op .semicolon ∧ t.span.start = c.queryStop
  stop : after = [] → c.queryStop = source.size

/-- The texts of the definition of a type. -/
def TypeBody.Reassembled : TypeBody → Prop
  | .table element => element.Reassembled source
  | .varray bound element =>
    (∀ x ∈ bound, x.Reassembled source ∨ x.Unclosed source) ∧ element.Reassembled source
  | .record fields => fields.Reassembled source
  | .refCursor result => ∀ x ∈ result, x.Reassembled source

/-- The texts of a declaration. -/
def Item.Reassembled : Item → Prop
  | .field f => f.name.Reassembled source ∧ f.TextsReassembled source
  | .subtype s => s.name.Reassembled source ∧ s.base.Reassembled source
  | .routine r => r.name.Reassembled source ∧ (∀ l ∈ r.params, l.Reassembled source) ∧
      ∀ x ∈ r.result, x.Reassembled source
  | .cursor c => c.name.Reassembled source ∧ (∀ l ∈ c.params, l.Reassembled source) ∧
      (∀ x ∈ c.result, x.Reassembled source) ∧
      source.extract c.sql.start c.queryStop = c.sql.text.toUTF8 ∧
      (c.sql.text ≠ "" → ∃ before opening query after, c.Encloses source before opening query after)
  | .type t => t.name.Reassembled source ∧ t.body.Reassembled source

end

/-- The declarations of a package. -/
def Package.items (p : Package) : List Item :=
  p.fields.map .field ++ p.subtypes.map .subtype ++ p.routines.map .routine ++
    p.cursors.map .cursor ++ p.types.map .type

theorem Package.mem_of_mem_items {doc : Option CommentGroup} {name : Ident} {first last : Nat}
    {items : List Item} {item : Item} (h : item ∈ (ofItems doc name first last items).items) :
    item ∈ items := by
  simp only [Package.items, ofItems, List.mem_append, List.mem_map, List.mem_filterMap] at h
  rcases h with (((h | h) | h) | h) | h <;> obtain ⟨x, ⟨item', hmem, heq⟩, rfl⟩ := h <;>
    (cases item' <;> cases heq) <;> exact hmem

/-! ## Tokens and their text -/

theorem tokensText_shift (n : Nat) (ts : List Token) :
    tokensText (ts.map (·.shift n)) = tokensText ts := by
  suffices h : ∀ apart, joinTokens apart (ts.map (·.shift n)) = joinTokens apart ts from h false
  induction ts with
  | nil => exact fun apart => rfl
  | cons t ts ih =>
    intro apart
    show (if apart && t.kind.isWord then " " else "") ++ t.typeText ++
      joinTokens t.parts (ts.map (·.shift n)) = joinTokens apart (t :: ts)
    rw [ih]
    rfl

theorem filter_shift (n : Nat) (us : List Token) :
    (us.map (·.shift n)).filter (·.kind ≠ .comment) =
      (us.filter (·.kind ≠ .comment)).map (·.shift n) :=
  List.filter_map

/-- A token that is no word follows without a space. -/
theorem joinTokens_concat {t : Token} (ht : t.kind.isWord = false) (apart : Bool)
    (ts : List Token) : joinTokens apart (ts ++ [t]) = joinTokens apart ts ++ t.typeText := by
  induction ts generalizing apart with
  | nil => simp [joinTokens, ht]
  | cons u ts ih => simp only [List.cons_append, joinTokens, ih, String.append_assoc]

/-- The text between the parentheses of a group. -/
theorem groupBody_tokensText {t u : Token} (ts : List Token) (ht : t.kind = .op .openParen)
    (htext : t.lexeme = "(") (hu : u.kind = .op .closeParen) (hutext : u.lexeme = ")") :
    String.ofList (groupBody (tokensText (t :: ts ++ [u])).toList) = tokensText ts := by
  have hword : u.kind.isWord = false := by rw [hu]; rfl
  have hgroup : tokensText (t :: ts ++ [u]) = "(" ++ tokensText ts ++ ")" := by
    rw [tokensText, joinTokens_concat hword]
    simp [joinTokens, Token.typeText, Token.parts, ht, hu, htext, hutext, tokensText,
      TokenKind.isWord]
  rw [hgroup]
  simp [groupBody]

/-! ## Slices of the source -/

namespace Input.Small

variable {i : Input} {ts : List DocToken}

/-- The source from the first of some tokens to the last holds these tokens. -/
theorem slice_tokens (hi : i.Small) (hts : ts <:+: i.tokens) {t u : DocToken}
    (ht : ts.head? = some t) (hu : ts.getLast? = some u) :
    t.span.start ≤ u.span.stop ∧
      ∃ us, tokens? (i.text.utf8Encode.extract t.span.start u.span.stop) = some us ∧
        tokensText (us.filter (·.kind ≠ .comment)) = tokensText (plainTokens ts) := by
  obtain ⟨before, after, hsplit⟩ := hts
  obtain ⟨front, body, back, raw, htext, hstart, hstop, hscan, hraw⟩ :=
    hi.piece_of_tokens hsplit.symm ht hu
  obtain ⟨us, rfl, hus⟩ := tokens?_of_scans hscan (by simp [Spacing]) (hi.piece_le htext)
  refine ⟨by omega, us, ?_, ?_⟩
  · rw [hstart, hstop, htext, extract_utf8Encode]
    exact hus
  · rw [← hraw, filter_shift, tokensText_shift]

/-- The source of a token holds nothing but the token. -/
theorem slice_token (hi : i.Small) {d : DocToken} (hd : d ∈ i.tokens) :
    ∃ t, tokens? (i.text.utf8Encode.extract d.span.start d.span.stop) = some [t] ∧
      t.kind = d.kind ∧ t.lexeme = d.lexeme := by
  obtain ⟨rest, hscans, -⟩ := hi.scans
  obtain ⟨before, after, hraw⟩ := List.append_of_mem (Scanned.mem_raw hd)
  have hraw : i.raw = before ++ [d.token] ++ after := by simpa using hraw
  rw [hraw] at hscans
  have hlast : [d.token].getLast? = some d.token := rfl
  obtain ⟨front, body, back, htext, hstart, hstop, hscan⟩ := hscans.segment rfl hlast
  rw [Nat.zero_add] at hstart hstop hscan
  obtain ⟨us, hus, htokens⟩ := tokens?_of_scans hscan (by simp [Spacing]) (hi.piece_le htext)
  obtain ⟨t, rfl, ht⟩ := List.map_eq_singleton_iff.1 hus.symm
  refine ⟨t, ?_, ?_, ?_⟩
  · rw [DocToken.span, hstart, hstop, htext, extract_utf8Encode]
    exact htokens
  · rw [DocToken.kind, ← ht, Token.kind_shift]
  · rw [DocToken.lexeme, ← ht, Token.lexeme_shift]

/-- The source between two tokens holds the tokens that stand between them. -/
theorem slice_between (hi : i.Small) {before inner after : List DocToken} {t u : DocToken}
    (hsplit : i.tokens = before ++ t :: inner ++ u :: after) :
    t.span.stop ≤ u.span.start ∧
      ∃ us, tokens? (i.text.utf8Encode.extract t.span.stop u.span.start) = some us ∧
        tokensText (us.filter (·.kind ≠ .comment)) = tokensText (plainTokens inner) := by
  obtain ⟨rest, hscans, -⟩ := hi.scans
  have hraw : i.raw = (before.flatMap DocToken.raw ++ t.skipped ++ [t.token]) ++
      ((inner.flatMap DocToken.raw ++ u.skipped) ++ u.token ::
        (after.flatMap DocToken.raw ++ i.eof.skipped)) := by
    simp [Input.raw, hsplit, DocToken.raw]
  rw [hraw] at hscans
  obtain ⟨front, mid, htext, hfront, hmid⟩ := hscans.of_append
  obtain ⟨body, mid', rfl, hbody, hmid'⟩ := hmid.of_append
  obtain ⟨gap, back, rfl, hgap, hstart, -⟩ := hmid'.trim
  rw [htext] at hfront
  have hstop := hfront.getLast_stop List.getLast?_concat
  rw [Nat.zero_add] at hstop hstart hbody
  rw [← List.append_assoc] at hbody
  have hpiece : i.text = front ++ (body ++ gap) ++ back := by simp [htext]
  obtain ⟨us, hus, htokens⟩ := tokens?_of_scans hbody.cut hgap (hi.piece_le hpiece)
  refine ⟨?_, us, ?_, ?_⟩
  · rw [DocToken.span, DocToken.span, hstop, hstart]
    omega
  · have hslice : byteLength front + byteLength body + byteLength gap =
        byteLength front + byteLength (body ++ gap) := by simp [Nat.add_assoc]
    rw [DocToken.span, DocToken.span, hstop, hstart, hslice, hpiece, extract_utf8Encode]
    exact htokens
  · have hskipped : u.skipped.filter (·.kind ≠ .comment) = [] := by
      simpa using hi.comments u (by simp [hsplit])
    have hinner := Scanned.filter_raw inner fun d hd =>
      ⟨hi.plain d (by simp [hsplit, hd]), hi.comments d (by simp [hsplit, hd])⟩
    rw [← tokensText_shift (byteLength front), ← filter_shift, ← hus, List.filter_append, hskipped,
      List.append_nil, hinner]

end Input.Small

/-! ## Texts from tokens -/

namespace Ident

variable {i : Input} {ts : List DocToken}

theorem reassembled_empty (source : ByteArray) (pos : Nat) :
    Reassembled source ⟨"", pos, pos⟩ := by
  refine ⟨[], ?_, rfl⟩
  have hempty : source.extract pos pos = [].utf8Encode := by
    rw [List.utf8Encode_nil, ByteArray.extract_eq_empty_iff]
    omega
  rw [hempty]
  obtain ⟨us, hus, htokens⟩ := tokens?_of_scans (@Scans.nil 0 []) (by simp [Spacing]) (by simp)
  rw [List.map_eq_nil_iff.1 hus.symm] at htokens
  exact htokens

theorem reassembled_ofTokens? (hi : i.Small) (hts : ts <:+: i.tokens) :
    ∀ x ∈ ofTokens? (plainTokens ts), x.Reassembled i.text.utf8Encode := by
  intro x hx
  cases hhead : ts.head? with
  | none =>
    rw [List.head?_eq_none_iff.1 hhead] at hx
    cases hx
  | some t =>
    cases hlast : ts.getLast? with
    | none =>
      rw [List.getLast?_eq_none_iff.1 hlast] at hx
      cases hx
    | some u =>
      obtain ⟨hle, us, htokens, htext⟩ := hi.slice_tokens hts hhead hlast
      simp only [ofTokens?, plainTokens, List.head?_map, hhead, List.getLast?_map, hlast,
        Option.map_some, Option.mem_def, Option.some.injEq] at hx
      subst hx
      have hstop : max u.span.stop t.span.start = u.span.stop := Nat.max_eq_left hle
      exact ⟨us, by rw [← hstop] at htokens; exact htokens, htext⟩

theorem reassembled_ofTokens (hi : i.Small) (hts : ts <:+: i.tokens) (pos : Nat) :
    (ofTokens pos (plainTokens ts)).Reassembled i.text.utf8Encode := by
  unfold ofTokens
  cases hx : ofTokens? (plainTokens ts) with
  | none => exact reassembled_empty _ pos
  | some x => exact reassembled_ofTokens? hi hts x hx

/-- A token that is no string, as a name. -/
theorem reassembled_token (hi : i.Small) {d : DocToken} (hd : d ∈ i.tokens)
    (hkind : d.kind ≠ .string) : Reassembled i.text.utf8Encode ⟨d.lexeme, d.span⟩ := by
  obtain ⟨t, htokens, ht, hlexeme⟩ := hi.slice_token hd
  have hplain : t.kind ≠ .comment := ht ▸ hi.plain d hd
  refine ⟨[t], htokens, ?_⟩
  rw [← ht] at hkind
  simp [tokensText, joinTokens, Token.typeText, hplain, hkind, hlexeme]

theorem literal_token (hi : i.Small) {d : DocToken} (hd : d ∈ i.tokens)
    (hkind : d.kind = .string) : Literal i.text.utf8Encode ⟨d.lexeme, d.span⟩ := by
  obtain ⟨t, htokens, ht, hlexeme⟩ := hi.slice_token hd
  exact ⟨t, htokens, ht.trans hkind, hlexeme⟩

end Ident

/-! ## Fields -/

theorem splitDefault_isPrefix (depth : Nat) (ts : List DocToken) :
    (splitDefault depth ts).1 <+: ts := by
  induction ts generalizing depth with
  | nil => exact List.prefix_refl _
  | cons t ts ih =>
    unfold splitDefault
    split
    · exact List.nil_prefix
    · exact (List.prefix_cons_inj t).2 (ih _)

theorem splitDefault_suffix (depth : Nat) (ts : List DocToken) :
    (splitDefault depth ts).2 <:+ ts := by
  induction ts generalizing depth with
  | nil => exact List.suffix_refl _
  | cons t ts ih =>
    unfold splitDefault
    split
    · exact List.suffix_cons t ts
    · exact (ih _).trans (List.suffix_cons t ts)

namespace Parser

variable {i : Input}

theorem ensures_name (hi : i.Small) :
    Ensures i name fun x => x.Reassembled i.text.utf8Encode := by
  refine (Ensures.name (by simp [hi.eof_kind])).weaken ?_
  rintro x ⟨t, ht, hkind, rfl⟩
  exact Ident.reassembled_token hi ht (by simp [hkind])

theorem ensures_nextName (hi : i.Small) :
    Ensures i nextName fun x => x.Reassembled i.text.utf8Encode :=
  .bind .advance fun _ _ => ensures_name hi

/-- The text of a variable up to its semicolon, in two parts. -/
theorem reassembled_splitDefault (hi : i.Small) {ts : List DocToken} (hts : ts <:+: i.tokens)
    (pos : Nat) :
    (Ident.ofTokens pos (plainTokens (splitDefault 0 ts).1)).Reassembled i.text.utf8Encode ∧
      ∀ x ∈ Ident.ofTokens? (plainTokens (splitDefault 0 ts).2),
        x.Reassembled i.text.utf8Encode :=
  ⟨Ident.reassembled_ofTokens hi ((splitDefault_isPrefix 0 ts).isInfix.trans hts) pos,
    Ident.reassembled_ofTokens? hi ((splitDefault_suffix 0 ts).isInfix.trans hts)⟩

theorem ensures_variableField (hi : i.Small) :
    Ensures i variableField fun f => (Item.field f).Reassembled i.text.utf8Encode := by
  refine .bind .current fun t _ => .bind (ensures_name hi) fun x hx => ?_
  refine .bind .advance fun _ _ => .bind (.isAt _) fun exception _ => ?_
  cases exception with
  | true => exact .pure ⟨hx, by simp [Field.ofException], by simp [Field.ofException]⟩
  | false =>
    refine .bind (.isAt _) fun constant _ => .when .advance ?_
    refine .bind .current fun u _ => .bind (.takeTo _) fun ts hts => .pure ?_
    obtain ⟨htype, hdefault⟩ := reassembled_splitDefault hi hts u.span.start
    cases constant with
    | true => exact ⟨hx, by simpa [Field.ofConstant] using htype, hdefault⟩
    | false => exact ⟨hx, by simpa [Field.ofVariable] using htype, hdefault⟩

theorem ensures_passMode : Ensures i passMode fun _ => True := by
  refine .bind (.isAt _) fun _ _ => .ite (fun _ => ?_) fun _ => ?_
  · exact .bind .advance fun _ _ => .pure trivial
  · refine .bind (.isAt _) fun _ _ => .ite (fun _ => ?_) fun _ => .pure trivial
    refine .bind .advance fun _ _ => .bind (.isAt _) fun _ _ => .ite (fun _ => ?_) fun _ => ?_
    · exact .bind .advance fun _ _ => .pure trivial
    · exact .pure trivial

theorem ensures_paramDefault (hi : i.Small) :
    Ensures i paramDefault fun d => ∀ x ∈ d, x.Reassembled i.text.utf8Encode := by
  refine .bind .current fun t _ => .ite (fun _ => ?_) fun _ => .pure (by simp)
  refine .bind .advance fun _ _ => .bind (.takeNested _) fun ts hts => .bind .atEnd fun _ _ => ?_
  exact .when .advance (.pure (Ident.reassembled_ofTokens? hi hts))

/-- The name of a parameter is any token, or the end of the input. -/
theorem reassembled_or_literal (hi : i.Small) {t : DocToken} (ht : t ∈ i.tokens ∨ t = i.eof) :
    Ident.Reassembled i.text.utf8Encode ⟨t.lexeme, t.span⟩ ∨
      Ident.Literal i.text.utf8Encode ⟨t.lexeme, t.span⟩ := by
  rcases ht with ht | rfl
  · by_cases hkind : t.kind = .string
    · exact .inr (Ident.literal_token hi ht hkind)
    · exact .inl (Ident.reassembled_token hi ht hkind)
  · obtain ⟨pos, heof⟩ := hi.eof_empty
    rw [DocToken.lexeme, DocToken.span, heof]
    exact .inl (Ident.reassembled_empty _ pos)

theorem ensures_param (hi : i.Small) :
    Ensures i param fun f => f.ListedReassembled i.text.utf8Encode := by
  refine .bind .current fun t ht => .bind .advance fun _ _ => .bind ensures_passMode fun mode _ => ?_
  refine .bind .current fun word _ => .when .advance (.bind .current fun first _ => ?_)
  refine .when (.require _) (.bind (.takeNested _) fun ts hts => ?_)
  refine .bind (ensures_paramDefault hi) fun d hd => .pure ?_
  have htype := Ident.reassembled_ofTokens hi hts first.span.start
  exact ⟨reassembled_or_literal hi ht, by simpa [Field.ofParameter] using htype, hd⟩

theorem ensures_fieldStep (hi : i.Small) (opening : Nat) (done : List Field)
    (hdone : ∀ f ∈ done, f.ListedReassembled i.text.utf8Encode) :
    Ensures i (fieldStep opening done)
      (Sum.elim (fun fs => ∀ f ∈ fs, f.ListedReassembled i.text.utf8Encode)
        fun l => l.Reassembled i.text.utf8Encode) := by
  refine .bind (ensures_param hi) fun f hf => ?_
  have hmore := List.forall_mem_cons.2 ⟨hf, hdone⟩
  refine .bind .current fun t _ => .ite (fun _ => .pure ?_) fun _ => ?_
  · exact fun f' hf' => hmore f' (List.mem_reverse.1 hf')
  · exact .bind (.require _) fun _ _ => .pure hmore

theorem ensures_fieldList (hi : i.Small) :
    Ensures i fieldList fun l => l.Reassembled i.text.utf8Encode := by
  refine .bind .current fun t _ => .bind ?_ fun l hl => .bind .advance fun _ _ => .pure hl
  refine .iterate (fun fs hfs => ensures_fieldStep hi t.span.start fs hfs) (fun fs hfs => ?_) ?_
  · simpa [FieldList.Reassembled] using hfs
  · simp

theorem ensures_fieldList? (hi : i.Small) :
    Ensures i fieldList? fun l? => ∀ l ∈ l?, l.Reassembled i.text.utf8Encode := by
  refine .bind (.isAt _) fun _ _ => .ite (fun _ => ?_) fun _ => .pure (by simp)
  exact .bind (ensures_fieldList hi) fun l hl => .pure (by simpa using hl)

/-! ## Bounds of arrays -/

/-- What is read to the end of the input as one group never closes more than it
    has opened. -/
theorem count_of_splitNested {depth : Nat} {ts : List DocToken}
    (h : (splitNested (fun _ => false) depth ts).2 = []) {front : List Token}
    (hfront : front <+: plainTokens ts) :
    front.countP (·.kind = .op .closeParen) ≤
      depth + front.countP (·.kind = .op .openParen) := by
  induction ts generalizing depth front with
  | nil =>
    obtain rfl := List.prefix_nil.1 hfront
    simp
  | cons t ts ih =>
    unfold splitNested at h
    split at h
    · cases h
    · rename_i hstop
      cases front with
      | nil => simp
      | cons u front =>
        obtain ⟨rfl, hfront'⟩ := List.cons_prefix_cons.1 hfront
        have ih := ih h hfront'
        have hkind : t.token.kind = t.kind := rfl
        have hdepth (hcloses : t.kind = .op .closeParen) : depth ≠ 0 := by
          simpa [hcloses] using hstop
        simp only [List.countP_cons, hkind]
        grind [depthAfter]

/-- A group in parentheses is read up to the parenthesis that closes it. -/
theorem splitNested_cases (ts : List DocToken) :
    (splitNested (fun _ => false) 0 ts).2 = [] ∨
      ∃ u after, u.kind = .op .closeParen ∧
        (splitNested (fun _ => false) 0 ts).2 = u :: after ∧
        ts = (splitNested (fun _ => false) 0 ts).1 ++ u :: after := by
  cases h : (splitNested (fun _ => false) 0 ts).2 with
  | nil => exact .inl rfl
  | cons u after =>
    refine .inr ⟨u, after, ?_, rfl, ?_⟩
    · simpa using kind_of_splitNested h
    · rw [← h]
      exact (splitNested_append _ 0 ts).symm

theorem reassembled_group (hi : i.Small) {before inner after : List DocToken} {t u : DocToken}
    (hsplit : i.tokens = before ++ t :: inner ++ u :: after) (ht : t.kind = .op .openParen)
    (hu : u.kind = .op .closeParen) :
    Ident.Reassembled i.text.utf8Encode
      ⟨String.ofList (groupBody (tokensText (plainTokens (t :: inner ++ [u]))).toList),
        t.span.start + 1, max (u.span.stop - 1) (t.span.start + 1)⟩ := by
  obtain ⟨htext, hstop⟩ := hi.spelling (d := t) (by simp [hsplit]) ht (by simp)
  obtain ⟨hutext, hustop⟩ := hi.spelling (d := u) (by simp [hsplit]) hu (by simp)
  have hstop : t.span.stop = t.span.start + 1 := hstop
  have hustop : u.span.stop = u.span.start + 1 := hustop
  obtain ⟨hle, us, hus, hustext⟩ := hi.slice_between hsplit
  have hspan : max (u.span.stop - 1) (t.span.start + 1) = u.span.start := by omega
  refine ⟨us, ?_, ?_⟩
  · rw [hspan, ← hstop]
    exact hus
  · rw [hustext]
    simp only [plainTokens, List.cons_append, List.map_cons, List.map_append, List.map_nil]
    exact (groupBody_tokensText _ ht htext hu hutext).symm

theorem unclosed_group (hi : i.Small) (hfault : i.fault? = none) {before ts : List DocToken}
    {t : DocToken} (hsplit : before ++ t :: ts = i.tokens) (ht : t.kind = .op .openParen)
    (hnil : (splitNested (fun _ => false) 0 ts).2 = []) {x : Ident}
    (hx : x.span.start = t.span.start + 1) : x.Unclosed i.text.utf8Encode := by
  obtain ⟨-, hstop⟩ := hi.spelling (d := t) (by simp [← hsplit]) ht (by simp)
  refine ⟨_, plainTokens before, t.token, plainTokens ts, hi.tokens?_source hfault, ?_, ht,
    hx.trans hstop.symm, fun front hfront => ?_⟩
  · rw [← hi.plainTokens_eq, ← hsplit]
    simp [plainTokens]
  · simpa using count_of_splitNested hnil hfront

theorem bound_reassembled (hi : i.Small) (hfault : i.fault? = none) {ts rest : List DocToken}
    {b : Option Ident} (hts : ts <:+ i.tokens) (h : Returns arrayBound? i ts b rest) :
    ∀ x ∈ b, x.Reassembled i.text.utf8Encode ∨ x.Unclosed i.text.utf8Encode := by
  rw [returns_arrayBound?] at h
  split at h
  · rename_i hopen
    obtain ⟨g, hgroup, rfl⟩ := h
    obtain ⟨t, ts, rfl, -⟩ := cons_of_current hi.eof_kind hopen (by simp)
    obtain ⟨before, hbefore⟩ := hts
    obtain ⟨-, hclosing, hg, -⟩ := returns_group.1 hgroup
    simp only [Option.mem_def, Option.some.injEq, forall_eq']
    rcases splitNested_cases ts with hnil | ⟨u, after, hu, hclosed, hsplit⟩
    · exact .inr (unclosed_group hi hfault hbefore hopen hnil rfl)
    · have htokens : i.tokens = before ++ t :: (splitNested (fun _ => false) 0 ts).1 ++
          u :: after := by
        rw [← hbefore, List.append_assoc, List.cons_append, ← hsplit]
      rw [hclosed] at hclosing
      subst hclosing hg
      exact .inl (reassembled_group hi htokens hopen hu)
  · obtain ⟨rfl, -⟩ := h
    simp

theorem ensures_arrayBound? (hi : i.Small) :
    Ensures i arrayBound? fun b => i.fault? = none →
      ∀ x ∈ b, x.Reassembled i.text.utf8Encode ∨ x.Unclosed i.text.utf8Encode := by
  refine Ensures.of_returns ?_ fun ts b rest hts h hfault => bound_reassembled hi hfault hts h
  refine .bind .current fun t _ => .ite (fun _ => ?_) fun _ => .pure trivial
  refine .bind (Q := fun _ => True) ?_ fun _ _ => .bind .current fun _ _ => .pure trivial
  refine .bind .current fun _ _ => .bind .advance fun _ _ => .bind (.takeNested _) fun _ _ => ?_
  refine .bind .atEnd fun _ _ => .ite (fun _ => .pure trivial) fun _ => ?_
  exact .bind .current fun _ _ => .pure trivial

/-! ## Types and routines -/

theorem ensures_typeTail (hi : i.Small) :
    Ensures i typeTail fun x => x.Reassembled i.text.utf8Encode :=
  .bind .advance fun _ _ => .bind .current fun t _ => .bind (.takeTo _) fun _ hts =>
    .pure (Ident.reassembled_ofTokens hi hts t.span.start)

theorem ensures_tableType (hi : i.Small) :
    Ensures i tableType fun d => d.Reassembled i.text.utf8Encode :=
  .bind .advance fun _ _ => .bind (.skipTo _) fun _ _ =>
    .bind (ensures_typeTail hi) fun _ hx => .pure hx

theorem ensures_arrayType (hi : i.Small) :
    Ensures i arrayType fun d => i.fault? = none → d.Reassembled i.text.utf8Encode :=
  .bind .advance fun _ _ => .bind (ensures_arrayBound? hi) fun _ hb => .bind (.skipTo _) fun _ _ =>
    .bind (ensures_typeTail hi) fun _ hx => .pure fun hfault => ⟨hb hfault, hx⟩

theorem ensures_recordType (hi : i.Small) :
    Ensures i recordType fun d => d.Reassembled i.text.utf8Encode :=
  .bind .advance fun _ _ => .bind (.require _) fun _ _ =>
    .bind (ensures_fieldList hi) fun _ hl => .pure hl

theorem ensures_refCursorType (hi : i.Small) :
    Ensures i refCursorType fun d => d.Reassembled i.text.utf8Encode := by
  refine .bind .advance fun _ _ => .bind (.require _) fun _ _ => .bind .advance fun _ _ => ?_
  refine .bind (.isAt _) fun _ _ => .ite (fun _ => .pure ?_) fun _ => ?_
  · simp [TypeBody.Reassembled]
  · refine .bind (.require _) fun _ _ => .bind (ensures_typeTail hi) fun x hx => .pure ?_
    simpa [TypeBody.Reassembled] using hx

theorem ensures_typeBody? (hi : i.Small) (name : Ident) :
    Ensures i (typeBody? name) fun d? => i.fault? = none →
      ∀ d ∈ d?, d.Reassembled i.text.utf8Encode := by
  refine .bind .current fun t _ => ?_
  split
  · exact .bind (ensures_tableType hi) fun _ hd => .pure (by simpa using fun _ => hd)
  · exact .bind (ensures_arrayType hi) fun _ hd => .pure (by simpa using hd)
  · exact .bind (ensures_recordType hi) fun _ hd => .pure (by simpa using fun _ => hd)
  · exact .bind (ensures_refCursorType hi) fun _ hd => .pure (by simpa using fun _ => hd)
  · exact .bind (.log _) fun _ _ => .bind (.skipTo _) fun _ _ => .pure (by simp)

theorem ensures_typeDecl? (hi : i.Small) :
    Ensures i typeDecl? fun t? => i.fault? = none →
      ∀ t ∈ t?, (Item.type t).Reassembled i.text.utf8Encode := by
  refine .bind .current fun _ _ => .bind (ensures_nextName hi) fun x hx => .bind .advance fun _ _ => ?_
  refine .bind (.require _) fun _ _ => .bind .advance fun _ _ => ?_
  refine .bind (ensures_typeBody? hi x) fun d? hd => .pure fun hfault t ht => ?_
  obtain ⟨d, hd', rfl⟩ := Option.map_eq_some_iff.1 ht
  exact ⟨hx, hd hfault d hd'⟩

theorem ensures_subtype (hi : i.Small) :
    Ensures i subtype fun s => (Item.subtype s).Reassembled i.text.utf8Encode :=
  .bind .current fun _ _ => .bind (ensures_nextName hi) fun _ hx => .bind .advance fun _ _ =>
    .bind (.require _) fun _ _ => .bind (ensures_typeTail hi) fun _ hy => .pure ⟨hx, hy⟩

theorem ensures_functionResult (hi : i.Small) :
    Ensures i functionResult fun x => x.Reassembled i.text.utf8Encode :=
  .bind (.require _) fun _ _ => .bind .advance fun _ _ => .bind .current fun t _ =>
    .bind (.takeTo _) fun _ hts => .pure (Ident.reassembled_ofTokens hi hts t.span.start)

theorem ensures_routine (hi : i.Small) :
    Ensures i routine fun r => (Item.routine r).Reassembled i.text.utf8Encode := by
  refine .bind .current fun t _ => .bind (ensures_nextName hi) fun x hx => .bind .advance fun _ _ => ?_
  refine .bind (ensures_fieldList? hi) fun l? hl => .ite (fun _ => ?_) fun _ => ?_
  · exact .bind (.skipTo _) fun _ _ => .pure ⟨hx, hl, by simp⟩
  · refine .bind (ensures_functionResult hi) fun y hy => .bind (.takeTo _) fun _ _ => .pure ?_
    exact ⟨hx, hl, by simpa using hy⟩

/-! ## Places between tokens -/

/-- An offset that parts the tokens that are left from those before them. -/
def Parts (i : Input) (n : Nat) (ts : List DocToken) : Prop :=
  ∃ before, before ++ ts = i.tokens ∧ (∀ d ∈ before, d.span.start < n) ∧ ∀ d ∈ ts, n ≤ d.span.start

namespace Parts

variable {n m : Nat} {ts ts' front : List DocToken} {t : DocToken}

theorem behind (hi : i.Scanned) (h : front ++ t :: ts = i.tokens) : Parts i t.span.stop ts := by
  obtain ⟨hfront, ht, hts⟩ := hi.order_at h
  refine ⟨front ++ [t], by simpa using h, fun d hd => ?_, hts⟩
  rcases List.mem_append.1 hd with hd | hd
  · exact Nat.lt_trans (hfront d hd) ht
  · obtain rfl := List.mem_singleton.1 hd
    exact ht

theorem before (hi : i.Scanned) (h : front ++ t :: ts = i.tokens) :
    Parts i t.span.start (t :: ts) := by
  obtain ⟨hfront, ht, hts⟩ := hi.order_at h
  refine ⟨front, h, hfront, fun d hd => ?_⟩
  rcases List.mem_cons.1 hd with rfl | hd
  · exact Nat.le_refl _
  · exact Nat.le_trans (Nat.le_of_lt ht) (hts d hd)

/-- The greater of two offsets parts the tokens that are left later. -/
theorem max (h : Parts i n ts) (h' : Parts i m ts') (hts : ts' <:+ ts) :
    Parts i (max n m) ts' := by
  obtain ⟨-, -, -, hn⟩ := h
  obtain ⟨before, hbefore, hlt, hm⟩ := h'
  refine ⟨before, hbefore, fun d hd => ?_, fun d hd => ?_⟩
  · have := hlt d hd
    omega
  · have := hn d (hts.subset hd)
    have := hm d hd
    omega

end Parts

/-- The text of some tokens ends with the last of them. -/
theorem stop_ofTokens (hi : i.Scanned) {ts : List DocToken} {t : DocToken}
    (hts : ts ++ [t] <:+: i.tokens) (pos : Nat) :
    (Ident.ofTokens pos (plainTokens (ts ++ [t]))).span.stop = t.span.stop := by
  obtain ⟨d, ds, hds⟩ := List.exists_cons_of_ne_nil (List.concat_ne_nil t ts)
  have hhead : (ts ++ [t]).head? = some d := by rw [hds]; rfl
  obtain ⟨before, after, hsplit⟩ := hts
  obtain ⟨front, body, back, raw, -, hstart, hstop, -⟩ :=
    hi.piece_of_tokens hsplit.symm hhead List.getLast?_concat
  have hle : d.span.start ≤ t.span.stop := by omega
  simp only [Ident.ofTokens, Ident.ofTokens?, plainTokens, List.head?_map, hhead,
    List.getLast?_map, List.getLast?_concat, Option.map_some, Option.getD_some]
  exact Nat.max_eq_left hle

/-- The text of the tokens up to another one ends before it. -/
theorem parts_takeWhile (hi : i.Scanned) {ts : List DocToken} (hts : ts <:+ i.tokens)
    (p : DocToken → Bool) (hne : ts.dropWhile p ≠ []) :
    Parts i (Ident.ofTokens (i.current ts).span.start (plainTokens (ts.takeWhile p))).span.stop
      (ts.dropWhile p) := by
  obtain ⟨before, hbefore⟩ := hts
  obtain ⟨u, after, hafter⟩ := List.exists_cons_of_ne_nil hne
  have hsplit : ts.takeWhile p ++ u :: after = ts := by
    rw [← hafter]
    exact List.takeWhile_append_dropWhile
  rw [← hsplit] at hbefore
  rw [hafter]
  rcases List.eq_nil_or_concat (ts.takeWhile p) with hnil | ⟨taken, t, htaken⟩
  · rw [hnil] at hsplit hbefore ⊢
    rw [← hsplit]
    exact Parts.before hi hbefore
  · rw [htaken, List.concat_eq_append] at hbefore ⊢
    rw [stop_ofTokens hi ⟨before, u :: after, by simpa using hbefore⟩]
    have hsplit : (before ++ taken) ++ t :: u :: after = i.tokens := by simpa using hbefore
    exact Parts.behind hi hsplit

/-! ## Cursors -/

/-- A list of fields starts with its opening parenthesis and ends with its closing
    one. -/
theorem closing_of_fieldList (hi : i.Scanned) {t : DocToken} {ts rest : List DocToken}
    {l : FieldList} (h : Returns fieldList i (t :: ts) l rest) :
    l.opening = t.span.start ∧
      ∃ u, u :: rest <:+ ts ∧ u.kind = .op .closeParen ∧ l.closing = u.span.start := by
  obtain ⟨l, mid, hloop, hrest⟩ := returns_bind.1 (returns_current_bind.1 h)
  simp only [returns_advance_bind, returns_pure] at hrest
  obtain ⟨-, rfl, rfl⟩ := hrest
  have hend : l.opening = t.span.start ∧
      ∃ u after, mid = u :: after ∧ u.kind = .op .closeParen ∧ l.closing = u.span.start := by
    refine Returns.iterate (fun _ us => us ≠ [])
      (fun l us => l.opening = t.span.start ∧
        ∃ u after, us = u :: after ∧ u.kind = .op .closeParen ∧ l.closing = u.span.start)
      (fun done t us x mid _ _ hround => ?_) (fun done hnil => absurd rfl hnil) (by simp) hloop
    obtain ⟨f, -, hx⟩ := returns_fieldStep.1 hround
    cases mid with
    | nil => simp [Input.current, hi.eof_kind] at hx
    | cons u after =>
      split at hx
      · rename_i hclose
        subst hx
        exact ⟨rfl, u, after, rfl, hclose, rfl⟩
      · rw [hx.2]
        exact List.cons_ne_nil _ _
  obtain ⟨hopening, u, after, rfl, hclose, hclosing⟩ := hend
  obtain ⟨-, x, mid, hround, hmore⟩ := returns_iterate_cons.1 hloop
  exact ⟨hopening, u, hmore.suffix.trans hround.suffix, hclose, hclosing⟩

theorem parts_fieldList (hi : i.Scanned) {ts rest : List DocToken} {l : FieldList}
    (hts : ts <:+ i.tokens) (hne : ts ≠ []) (h : Returns fieldList i ts l rest) :
    Parts i (l.closing + 1) rest := by
  obtain ⟨t, ts, rfl⟩ := List.exists_cons_of_ne_nil hne
  obtain ⟨-, u, hsuffix, hclose, hclosing⟩ := closing_of_fieldList hi h
  obtain ⟨before, hbefore⟩ := (hsuffix.trans (List.suffix_cons t ts)).trans hts
  obtain ⟨-, hstop⟩ := hi.spelling (d := u) (by simp [← hbefore]) hclose (by simp)
  have hstop : u.span.stop = u.span.start + 1 := hstop
  rw [hclosing, ← hstop]
  exact Parts.behind hi hbefore

section
variable {n : Nat} {ts rest : List DocToken}

theorem parts_fieldList? (hi : i.Scanned) {l? : Option FieldList} (hn : Parts i n ts)
    (h : Returns fieldList? i ts l? rest) :
    Parts i (max n ((l?.map (·.closing + 1)).getD 0)) rest := by
  rw [returns_fieldList?] at h
  split at h
  · rename_i hopen
    obtain ⟨l, hl, rfl⟩ := h
    obtain ⟨before, hbefore, -⟩ := id hn
    obtain ⟨t, us, hcons, -⟩ := cons_of_current hi.eof_kind hopen (by simp)
    exact hn.max (parts_fieldList hi ⟨before, hbefore⟩ (by simp [hcons]) hl) hl.suffix
  · obtain ⟨rfl, rfl⟩ := h
    simpa using hn

theorem parts_cursorResult? (hi : i.Scanned) {x? : Option Ident} (hn : Parts i n ts)
    (h : Returns cursorResult? i ts x? rest) (hrest : rest ≠ []) :
    Parts i (max n ((x?.map (·.span.stop)).getD 0)) rest := by
  have hsuffix := h.suffix
  rw [returns_cursorResult?] at h
  split at h
  · obtain ⟨-, row, hrow, rfl⟩ := h
    obtain ⟨rfl, rfl, -⟩ := returns_takeTo.1 hrow
    obtain ⟨before, hbefore, -⟩ := id hn
    have htail : ts.tail <:+ i.tokens := ts.tail_suffix.trans ⟨before, hbefore⟩
    exact hn.max (parts_takeWhile hi htail _ hrest) hsuffix
  · obtain ⟨rfl, rfl⟩ := h
    simpa using hn

/-- The source between two places of the parser, as a text. -/
theorem extract_slice (hi : i.Scanned) (hfault : i.fault? = none) {ts' : List DocToken}
    (hts : ts <:+ i.tokens) (hts' : ts' <:+ ts) {start stop : Nat}
    (hstart : (i.current ts).span.start = start) (hstop : (i.current ts').span.start = stop) :
    start + (String.ofList (slice i.text start stop)).utf8ByteSize = stop ∧
      i.text.utf8Encode.extract start stop = (String.ofList (slice i.text start stop)).toUTF8 := by
  subst hstart hstop
  by_cases hne : ts' = ts
  · subst hne
    simp [slice_self]
  · obtain ⟨front, body, back, htext, -, hstart, hstop⟩ :=
      hi.piece_between hts hts' hne fun _ => hfault
    rw [hstart, hstop, htext, slice_append, extract_utf8Encode]
    constructor
    · rw [← String.size_toByteArray, String.toByteArray_ofList, size_utf8Encode]
    · simp

/-- Where the parser gets to when it skips to a kind of token. -/
theorem skipTo_split {kind : TokenKind} (h : Returns (skipTo kind) i ts () rest) :
    ∃ passed, ts = passed ++ rest ∧ (∀ d ∈ passed, d.kind ≠ kind) ∧
      ∀ d ∈ rest.head?, d.kind = kind := by
  obtain ⟨rfl, -⟩ := returns_skipTo.1 h
  refine ⟨_, List.takeWhile_append_dropWhile.symm, fun d hd => ?_, fun d hd => ?_⟩
  · simpa using takeWhile_all d hd
  · simpa using head?_dropWhile_not ts d hd

/-- A query that is not empty stands behind the next `is` and goes up to the
    semicolon or to the end. -/
theorem query_of_returns {sql : Sql} (h : Returns cursorQuery i ts sql rest) (hne : sql.text ≠ "") :
    ∃ gap opening query, ts = gap ++ opening :: (query ++ rest) ∧
      (∀ d ∈ gap, d.kind ≠ .keyword .is) ∧ opening.kind = .keyword .is ∧ query ≠ [] ∧
      (∀ d ∈ query, d.kind ≠ .op .semicolon) ∧ (∀ d ∈ rest.head?, d.kind = .op .semicolon) ∧
      (i.current (query ++ rest)).span.start = sql.start ∧
      sql.text = String.ofList (slice i.text sql.start (i.current rest).span.start) := by
  rw [returns_cursorQuery] at h
  split at h
  · rw [h.1] at hne
    exact absurd rfl hne
  · obtain ⟨opened, hopened, -, hrest, rfl⟩ := h
    obtain ⟨gap, hgap, hpassed, hopening⟩ := skipTo_split hopened
    obtain ⟨query, hquery, hinside, hstop⟩ := skipTo_split hrest
    cases opened with
    | nil =>
      obtain rfl := List.suffix_nil.1 hrest.suffix
      exact absurd (congrArg String.ofList (slice_self i.text _)) hne
    | cons opening opened =>
      have hquery : opened = query ++ rest := hquery
      subst hquery
      refine ⟨gap, opening, query, hgap, hpassed, hopening opening rfl, ?_, hinside, hstop, rfl, rfl⟩
      rintro rfl
      exact absurd (congrArg String.ofList (slice_self i.text _)) hne

/-- The query of a cursor is a copy of its source. -/
theorem extract_query (hi : i.Scanned) (hfault : i.fault? = none) {c : Cursor}
    (hts : ts <:+ i.tokens) (h : Returns cursorQuery i ts c.sql rest) :
    i.text.utf8Encode.extract c.sql.start c.queryStop = c.sql.text.toUTF8 := by
  by_cases hne : c.sql.text = ""
  · simp [Cursor.queryStop, hne]
  · obtain ⟨gap, opening, query, rfl, -, -, -, -, -, hstart, htext⟩ := query_of_returns h hne
    have hopened : query ++ rest <:+ i.tokens :=
      (List.suffix_cons opening _).trans ((List.suffix_append gap _).trans hts)
    obtain ⟨hstop, hcopy⟩ :=
      extract_slice hi hfault hopened (List.suffix_append query rest) hstart rfl
    rw [Cursor.queryStop, htext, hstop]
    exact hcopy

theorem encloses_of_returns (hi : i.Small) (hfault : i.fault? = none) {c : Cursor}
    (hparts : ts ≠ [] → Parts i c.signatureStop ts) (hts : ts <:+ i.tokens)
    (h : Returns cursorQuery i ts c.sql rest) (hne : c.sql.text ≠ "") :
    ∃ before opening query after,
      c.Encloses i.text.utf8Encode before opening query after := by
  obtain ⟨gap, opening, query, rfl, hgap, hopening, hquery, hinside, hsemicolon, hstart, htext⟩ :=
    query_of_returns h hne
  have hopened : query ++ rest <:+ i.tokens :=
    (List.suffix_cons opening _).trans ((List.suffix_append gap _).trans hts)
  obtain ⟨hstop, -⟩ :=
    extract_slice hi.toScanned hfault hopened (List.suffix_append query rest) hstart rfl
  have hstop : c.queryStop = (i.current rest).span.start := by rw [Cursor.queryStop, htext, hstop]
  obtain ⟨before, hbefore, hlt, hle⟩ := hparts (by simp)
  refine ⟨plainTokens (before ++ gap), opening.token, plainTokens query, plainTokens rest, ?_⟩
  constructor
  case tokens =>
    rw [hi.tokens?_source hfault, Option.map_some, ← hi.plainTokens_eq, ← hbefore]
    simp [plainTokens]
  case opens => exact hopening
  case behind => exact hle opening (by simp)
  case first =>
    intro t ht hkind
    obtain ⟨d, hd, rfl⟩ := List.mem_map.1 ht
    rcases List.mem_append.1 hd with hd | hd
    · exact hlt d hd
    · exact absurd hkind (hgap d hd)
  case start =>
    obtain ⟨d, ds, rfl⟩ := List.exists_cons_of_ne_nil hquery
    exact congrArg some hstart
  case inside =>
    intro t ht
    obtain ⟨d, hd, rfl⟩ := List.mem_map.1 ht
    exact hinside d hd
  case semicolon =>
    intro t ht
    cases rest with
    | nil => cases ht
    | cons d ds =>
      cases ht
      exact ⟨hsemicolon d rfl, hstop.symm⟩
  case stop =>
    intro hnil
    obtain rfl := List.map_eq_nil_iff.1 hnil
    rw [hstop, size_utf8Encode, Input.current, List.headD_nil, DocToken.span, hi.eof hfault]
    rfl

theorem ensures_cursorQuery : Ensures i cursorQuery fun _ => True := by
  refine .bind .current fun t _ => .ite (fun _ => .pure trivial) fun _ => ?_
  refine .bind (.skipTo _) fun _ _ => .bind .advance fun _ _ => .bind .current fun _ _ => ?_
  refine .bind (.skipTo _) fun _ _ => .bind .current fun _ _ => .bind .input fun _ _ => ?_
  exact .pure trivial

/-- The texts of a cursor beside its query. -/
theorem ensures_cursorTexts (hi : i.Small) :
    Ensures i cursor fun c => c.name.Reassembled i.text.utf8Encode ∧
      (∀ l ∈ c.params, l.Reassembled i.text.utf8Encode) ∧
      ∀ x ∈ c.result, x.Reassembled i.text.utf8Encode := by
  have hresult : Ensures i cursorResult? fun x? => ∀ x ∈ x?, x.Reassembled i.text.utf8Encode := by
    refine .bind (.isAt _) fun _ _ => .ite (fun _ => ?_) fun _ => .pure (by simp)
    refine .bind .advance fun _ _ => .bind .current fun t _ => .bind (.takeTo _) fun ts hts => ?_
    exact .pure (by simpa using Ident.reassembled_ofTokens hi hts t.span.start)
  refine .bind .current fun _ _ => .bind (ensures_nextName hi) fun _ hx => .bind .advance fun _ _ => ?_
  refine .bind (ensures_fieldList? hi) fun _ hl => .bind hresult fun _ hy => ?_
  exact .bind ensures_cursorQuery fun _ _ => .pure ⟨hx, hl, hy⟩

theorem query_of_cursor (hi : i.Small) {c : Cursor} (hts : ts <:+ i.tokens)
    (h : Returns cursor i ts c rest) (hfault : i.fault? = none) :
    i.text.utf8Encode.extract c.sql.start c.queryStop = c.sql.text.toUTF8 ∧
      (c.sql.text ≠ "" → ∃ before opening query after,
        c.Encloses i.text.utf8Encode before opening query after) := by
  obtain ⟨-, hkind, -, params, mid, result, mid', sql, hparams, hresult, hquery, hc⟩ :=
    returns_cursor.1 h
  obtain ⟨d, ds, hds, -⟩ := cons_of_current hi.eof_kind hkind (by simp)
  rw [hds] at hparams hc
  obtain ⟨front, hfront⟩ := hds ▸ ts.tail_suffix.trans hts
  have hstop : c.signatureStop = max (max d.span.stop ((params.map (·.closing + 1)).getD 0))
      ((result.map (·.span.stop)).getD 0) := by
    rw [hc, Nat.max_assoc]
    rfl
  have hname := Parts.behind hi.toScanned hfront
  have hparts (hne : mid' ≠ []) : Parts i c.signatureStop mid' := by
    rw [hstop]
    exact parts_cursorResult? hi.toScanned (parts_fieldList? hi.toScanned hname hparams) hresult hne
  have hmid : mid' <:+ i.tokens := by
    refine hresult.suffix.trans (hparams.suffix.trans ?_)
    exact ⟨front ++ [d], by simpa using hfront⟩
  have hquery' : Returns cursorQuery i mid' c.sql rest := by
    rw [hc]
    exact hquery
  exact ⟨extract_query hi.toScanned hfault hmid hquery', encloses_of_returns hi hfault hparts hmid hquery'⟩

theorem ensures_cursor (hi : i.Small) :
    Ensures i cursor fun c => i.fault? = none →
      (Item.cursor c).Reassembled i.text.utf8Encode := by
  refine ((ensures_cursorTexts hi).and fun ts c rest hts h => query_of_cursor hi hts h).weaken ?_
  rintro c ⟨⟨hname, hparams, hresult⟩, hquery⟩ hfault
  exact ⟨hname, hparams, hresult, hquery hfault⟩

end

/-! ## Packages -/

theorem ensures_skipDirective (closes : DocToken → Bool) :
    Ensures i (skipDirective closes) fun _ => True :=
  .bind (.passTo _ _) fun _ _ => .pure trivial

theorem ensures_directive : Ensures i directive fun _ => True := by
  refine .bind .advance fun _ _ => .bind (.isAt _) fun _ _ => .when .advance ?_
  refine .bind .current fun t _ => .ite (fun _ => ensures_skipDirective _) fun _ => ?_
  exact .ite (fun _ => ensures_skipDirective _) fun _ => .pure trivial

theorem ensures_item? (hi : i.Small) :
    Ensures i item? fun item? => i.fault? = none →
      ∀ item ∈ item?, item.Reassembled i.text.utf8Encode := by
  refine .bind .current fun t _ => ?_
  split
  · exact .bind ensures_directive fun _ _ => .pure (by simp)
  · exact .bind (ensures_variableField hi) fun f hf => .pure (by simpa using fun _ => hf)
  · exact .bind (ensures_cursor hi) fun c hc => .pure (by simpa using hc)
  · exact .bind (ensures_routine hi) fun r hr => .pure (by simpa using fun _ => hr)
  · exact .bind (ensures_routine hi) fun r hr => .pure (by simpa using fun _ => hr)
  · exact .bind (.skipTo _) fun _ _ => .pure (by simp)
  · refine .bind (ensures_typeDecl? hi) fun t? ht => .pure fun hfault item hitem => ?_
    obtain ⟨t, ht', rfl⟩ := Option.map_eq_some_iff.1 hitem
    exact ht hfault t ht'
  · exact .bind (ensures_subtype hi) fun s hs => .pure (by simpa using fun _ => hs)
  · exact .pure (by simp)
  · exact .pure (by simp)
  · exact .bind (.log _) fun _ _ => .bind (.skipTo _) fun _ _ => .pure (by simp)

theorem ensures_packageEnd (name : Ident) : Ensures i (packageEnd name) fun _ => True := by
  refine .bind .current fun _ _ => .bind .advance fun _ _ => .bind .current fun t _ => ?_
  refine .ite (fun _ => ?_) fun _ => .pure trivial
  exact .ite (fun _ => .pure trivial) fun _ => .fail _

theorem ensures_itemStep (hi : i.Small) (name : Ident) (found : Found)
    (hfound : i.fault? = none → ∀ item ∈ found.items, item.Reassembled i.text.utf8Encode) :
    Ensures i (itemStep name found) (Sum.elim
      (fun found => i.fault? = none → ∀ item ∈ found.items, item.Reassembled i.text.utf8Encode)
      fun found => i.fault? = none →
        ∀ item ∈ found.items, item.Reassembled i.text.utf8Encode) := by
  refine .bind .current fun t _ => .ite (fun _ => ?_) fun _ => ?_
  · exact .bind (ensures_packageEnd name) fun _ _ => .pure hfound
  · refine .bind (ensures_item? hi) fun item? hitem => .pure fun hfault item hmem => ?_
    rcases List.mem_append.1 hmem with hmem | hmem
    · exact hitem hfault item (Option.mem_toList.1 hmem)
    · exact hfound hfault item hmem

theorem ensures_items (hi : i.Small) (name : Ident) :
    Ensures i (items name) fun x => i.fault? = none →
      ∀ item ∈ x.1, item.Reassembled i.text.utf8Encode := by
  refine .bind .current fun t _ => .bind (.iterate (ensures_itemStep hi name) ?_ ?_) fun x hx => ?_
  · exact fun found hfound => hfound
  · simp
  · refine .pure fun hfault item hitem => ?_
    exact hx hfault item (List.mem_reverse.1 hitem)

theorem ensures_packageName (hi : i.Small) :
    Ensures i packageName fun x => x.Reassembled i.text.utf8Encode := by
  refine .bind (ensures_name hi) fun x hx => .bind .advance fun _ _ => .bind (.isAt _) fun _ _ => ?_
  refine .ite (fun _ => ?_) fun _ => ?_
  · refine .bind (ensures_nextName hi) fun y hy => .bind .advance fun _ _ => ?_
    exact .bind (.takeTo _) fun _ _ => .pure hy
  · exact .bind (.takeTo _) fun _ _ => .pure hx

end Parser

/-- The texts of a package. -/
def Package.Reassembled (source : ByteArray) (p : Package) : Prop :=
  p.name.Reassembled source ∧ ∀ item ∈ p.items, item.Reassembled source

namespace Parser

variable {i : Input}

theorem ensures_packageBody : Ensures i packageBody fun _ => True := by
  refine .bind .current fun _ _ => .bind .advance fun _ _ => .bind (.passTo _ _) fun _ _ => ?_
  exact .bind .current fun _ _ => .log _

theorem ensures_package? (hi : i.Small) (create : DocToken) :
    Ensures i (package? create) fun p? => i.fault? = none →
      ∀ p ∈ p?, p.Reassembled i.text.utf8Encode := by
  refine .bind (.isAt _) fun _ _ => .ite (fun _ => ?_) fun _ => ?_
  · exact .bind ensures_packageBody fun _ _ => .pure (by simp)
  · refine .bind (ensures_packageName hi) fun x hx => .bind (ensures_items hi x) fun y hy => ?_
    refine .bind (.log _) fun _ _ => .pure fun hfault p hp => ?_
    cases hp
    exact ⟨hx, fun item hitem => hy hfault item (Package.mem_of_mem_items hitem)⟩

theorem ensures_nextCreate? : Ensures i nextCreate? fun _ => True :=
  .bind (.passTo _ _) fun _ _ => .bind .atEnd fun _ _ => .pure trivial

/-- What holds of every package that a statement creates holds of all packages. -/
theorem ensures_packages_of {P : Package → Prop}
    (h : ∀ create, Ensures i (package? create) fun p? => ∀ p ∈ p?, P p) :
    Ensures i packages fun ps => ∀ p ∈ ps, P p := by
  have hstep : ∀ s : Search, (∀ p ∈ s.packages, P p) →
      Ensures i (packageStep s)
        (Sum.elim (fun s => ∀ p ∈ s.packages, P p) fun ps => ∀ p ∈ ps, P p) := by
    intro s hs
    refine .bind (h s.create) fun p? hp => .bind ensures_nextCreate? fun c? _ => ?_
    have hmore : ∀ p ∈ p?.toList ++ s.packages, P p := by
      intro p hmem
      rcases List.mem_append.1 hmem with hmem | hmem
      · exact hp p (Option.mem_toList.1 hmem)
      · exact hs p hmem
    cases c? with
    | some c => exact .pure hmore
    | none => exact .pure fun p hmem => hmore p (List.mem_reverse.1 hmem)
  refine .bind ensures_nextCreate? fun create? _ => ?_
  cases create? with
  | none => exact .pure (by simp)
  | some create => exact .iterate hstep (fun s hs p hmem => hs p (List.mem_reverse.1 hmem)) (by simp)

theorem ensures_packages (hi : i.Small) :
    Ensures i packages fun ps => i.fault? = none →
      ∀ p ∈ ps, p.Reassembled i.text.utf8Encode := by
  have hall : Ensures i packages fun ps =>
      ∀ p ∈ ps, i.fault? = none → p.Reassembled i.text.utf8Encode :=
    ensures_packages_of fun create => (ensures_package? hi create).weaken
      fun p? hp p hmem hfault => hp hfault p hmem
  exact hall.weaken fun ps hps hfault p hmem => hps p hmem hfault

end Parser

/-! ## Files -/

/-- A file that is parsed was scanned to its end. -/
theorem Input.Small.fault?_of_parse {i : Input} (hi : i.Small) {f : SourceFile}
    (h : i.parse.result = .ok f) : i.fault? = none := by
  obtain ⟨hempty, -, rest, hreturns⟩ := Input.parse_eq_ok.1 h
  obtain ⟨hreaches, -⟩ := Parser.ensures_packages hi _ _ _ (List.suffix_refl _) hreturns
  by_cases hnil : i.tokens = []
  · exact hempty hnil
  · exact hreaches hnil (Parser.eq_nil_of_packages hreturns)

/-- A file that is parsed has a text, which was scanned to its end and has no tokens
    behind the packages. -/
theorem text_of_parse {file : String} {source : ByteArray} {f : SourceFile}
    (h : (parse file source).result = .ok f) :
    ∃ text, source = text.utf8Encode ∧ text.utf8Encode.size ≤ maxOffset ∧
      (Input.ofText file text).fault? = none ∧
      Parser.packages.Returns (.ofText file text) (Input.ofText file text).tokens f.packages [] := by
  obtain ⟨-, hsize, text, rfl, hparse⟩ := parse_eq_ok_iff.1 h
  obtain ⟨-, -, rest, hreturns⟩ := Input.parse_eq_ok.1 hparse
  obtain rfl := Parser.eq_nil_of_packages hreturns
  exact ⟨text, rfl, hsize, (Input.small_ofText file hsize).fault?_of_parse hparse, hreturns⟩

/-- **Texts and their source**: in a file that is parsed, every text is the one
    that the tokens of its source give, and every query a copy of its source. -/
theorem parse_reassembled {file : String} {source : ByteArray} {f : SourceFile}
    (h : (parse file source).result = .ok f) : ∀ p ∈ f.packages, p.Reassembled source := by
  obtain ⟨text, rfl, hsize, hfault, hreturns⟩ := text_of_parse h
  have hi := Input.small_ofText file hsize
  exact (Parser.ensures_packages hi _ _ _ (List.suffix_refl _) hreturns).2 hfault

/-- A source with a name that is a string, a bound with a comment in it and a
    query. -/
def querySource : ByteArray :=
  ("create package P is type v is varray(/* n */ 10) of t; " ++
    "cursor c('x' in t default (1)) is select -- all\n * from u; end;").toUTF8

theorem parse_reassembled_query :
    ∃ f, (parse "a.pks" querySource).result = .ok f ∧
      f.packages.map (fun p => p.cursors.map (·.sql.text)) = [["select -- all\n * from u"]] ∧
      ∀ p ∈ f.packages, p.Reassembled querySource := by
  have hparse : (parse "a.pks" querySource).result.toOption.map
      (fun f => f.packages.map fun p => p.cursors.map (·.sql.text)) =
        some [["select -- all\n * from u"]] := by
    decide +kernel
  obtain ⟨f, hresult, hvalue⟩ := exists_ok_of_toOption hparse
  exact ⟨f, hresult, hvalue, parse_reassembled hresult⟩

end PackageDoc
