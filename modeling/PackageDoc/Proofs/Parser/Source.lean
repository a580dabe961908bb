/-
  Tokens and the source that they stand in.

  A parser sees tokens without comments; the source has both.  `Input.raw` are
  the tokens of a source as they were scanned, and `Input.ofText` keeps them all
  (`raw_ofText`), so what stands between two places of the parser is a piece of
  the source that starts and ends with tokens (`Input.piece_between`), and the
  tokens that a production takes are those of one piece of the source, with the
  comments among them (`Input.piece_of_tokens`).
-/
import PackageDoc.Parser.Package
import PackageDoc.Proofs.Text.Encoding
import PackageDoc.Proofs.Token.Scan

namespace PackageDoc

open Text

/-! ## Comments and tokens -/

/-- A token with the comments before it, as they were scanned. -/
def DocToken.raw (d : DocToken) : List Token := d.skipped ++ [d.token]

/-- Attaching comments to tokens loses none of them. -/
theorem raw_attachFrom (lines : LineTable) (eof : Token) (previous : Option Nat)
    (skipped ts : List Token) :
    (attachFrom lines eof previous skipped ts).1.flatMap DocToken.raw ++
      (attachFrom lines eof previous skipped ts).2.skipped = skipped.reverse ++ ts := by
  fun_induction attachFrom lines eof previous skipped ts with
  | case1 => simp [docToken]
  | case2 previous skipped t ts hcomment ih => simp [ih]
  | case3 previous skipped t ts hcomment d ds last heq ih =>
    rw [heq] at ih
    simp only [List.flatMap_cons, List.append_assoc, ih]
    simp [d, docToken, DocToken.raw]

/-- The end of the input is kept. -/
theorem token_attachFrom (lines : LineTable) (eof : Token) (previous : Option Nat)
    (skipped ts : List Token) : (attachFrom lines eof previous skipped ts).2.token = eof := by
  obtain ⟨previous', skipped', heof⟩ := (exists_docToken lines eof previous skipped ts).2
  rw [heof]
  rfl

/-- What is no comment is a token of the parser. -/
theorem plainTokens_attachFrom (lines : LineTable) (eof : Token) (previous : Option Nat)
    (skipped ts : List Token) :
    plainTokens (attachFrom lines eof previous skipped ts).1 = ts.filter (·.kind ≠ .comment) := by
  fun_induction attachFrom lines eof previous skipped ts with
  | case1 => rfl
  | case2 previous skipped t ts hcomment ih => simp [ih, hcomment]
  | case3 previous skipped t ts hcomment d ds last heq ih =>
    rw [heq] at ih
    simp only [plainTokens] at ih
    simp [plainTokens, hcomment, ih, d, docToken]

/-- What is kept before a token are comments. -/
theorem skipped_attachFrom (lines : LineTable) (eof : Token) (previous : Option Nat)
    (skipped ts : List Token) (hskipped : ∀ t ∈ skipped, t.kind = .comment) :
    (∀ d ∈ (attachFrom lines eof previous skipped ts).1, ∀ t ∈ d.skipped, t.kind = .comment) ∧
      ∀ t ∈ (attachFrom lines eof previous skipped ts).2.skipped, t.kind = .comment := by
  fun_induction attachFrom lines eof previous skipped ts with
  | case1 => simpa [docToken] using hskipped
  | case2 previous skipped t ts hcomment ih =>
    exact ih (by simpa [hcomment] using hskipped)
  | case3 previous skipped t ts hcomment d ds last heq ih =>
    rw [heq] at ih
    obtain ⟨hds, hlast⟩ := ih (by simp)
    refine ⟨fun d' hd' => ?_, hlast⟩
    rcases List.mem_cons.1 hd' with rfl | hd'
    · simpa [d, docToken] using hskipped
    · exact hds d' hd'

theorem commentSlots_nil (previous : Option Nat) (next : Nat) (atEnd : Bool) :
    commentSlots previous [] next atEnd = {} := by
  cases previous <;> simp [commentSlots, splitSameLine, lastRun, groupOf, CommentGroup.ofList?]

/-- Without comments before it, a token has no docs. -/
theorem slots_attachFrom (lines : LineTable) (eof : Token) (previous : Option Nat)
    (skipped ts : List Token) :
    ∀ d ∈ (attachFrom lines eof previous skipped ts).1, d.skipped = [] → d.slots = {} := by
  intro d hd hnil
  obtain ⟨previous', skipped', t, rfl⟩ := (exists_docToken lines eof previous skipped ts).1 d hd
  obtain rfl : skipped' = [] := hnil
  exact commentSlots_nil previous' _ _

/-! ## The tokens of an input -/

namespace Input

/-- The tokens of an input with its comments, as they were scanned. -/
def raw (i : Input) : List Token := i.tokens.flatMap DocToken.raw ++ i.eof.skipped

/-- An input that was scanned from its text. -/
structure Scanned (i : Input) : Prop where
  scans : ∃ rest, Scans 0 i.text i.raw rest ∧ (i.fault? = none → Spacing rest)
  eof : i.fault? = none → i.eof.token = Scanner.endToken (byteLength i.text)
  eof_empty : ∃ pos, i.eof.token = Scanner.endToken pos
  plain : ∀ d ∈ i.tokens, d.kind ≠ .comment
  comments : ∀ d ∈ i.tokens, ∀ t ∈ d.skipped, t.kind = .comment
  eof_comments : ∀ t ∈ i.eof.skipped, t.kind = .comment
  slots : ∀ d ∈ i.tokens, d.skipped = [] → d.slots = {}

section
variable (file : String) (text : List Char)

theorem raw_ofText : (ofText file text).raw = (scanText text).tokens :=
  raw_attachFrom (scanText text).lines _ none [] (scanText text).tokens

theorem plainTokens_ofText :
    plainTokens (ofText file text).tokens =
      (scanText text).tokens.filter (·.kind ≠ .comment) :=
  plainTokens_attachFrom (scanText text).lines _ none [] (scanText text).tokens

theorem fault?_ofText_eq_none {text : List Char} {t : Token}
    (h : (scanText text).ending = .ok t) : (ofText file text).fault? = none := by
  simp only [ofText, h]

theorem ending_of_fault? {text : List Char} (h : (ofText file text).fault? = none) :
    ∃ t, (scanText text).ending = .ok t := by
  cases hend : (scanText text).ending with
  | ok t => exact ⟨t, rfl⟩
  | error e => simp [ofText, hend] at h

theorem token_eof_ofText {text : List Char} {t : Token} (h : (scanText text).ending = .ok t) :
    (ofText file text).eof.token = t := by
  simp only [ofText, h]
  exact token_attachFrom (scanText text).lines t none [] (scanText text).tokens

theorem eof_ofText : ∃ pos, (ofText file text).eof.token = Scanner.endToken pos := by
  obtain ⟨used, rest, passed, -, -, hstops⟩ := scans_of_scanText text
  cases hend : (scanText text).ending with
  | ok t =>
    rw [hend] at hstops
    cases hstops
    exact ⟨_, token_eof_ofText file hend⟩
  | error e =>
    refine ⟨e.pos, ?_⟩
    simp only [ofText, hend]
    exact token_attachFrom _ _ none [] _

theorem scanned_ofText : (ofText file text).Scanned := by
  obtain ⟨used, rest, passed, htext, hscans, hstops⟩ := scans_of_scanText text
  rw [← htext] at hscans
  refine ⟨⟨rest, ?_, ?_⟩, ?_, eof_ofText file text, ?_, ?_, ?_, ?_⟩
  · rw [raw_ofText]
    exact hscans
  · intro hfault
    obtain ⟨t, ht⟩ := ending_of_fault? file hfault
    rw [ht] at hstops
    cases hstops with
    | eof hgap => exact hgap
  · intro hfault
    obtain ⟨t, ht⟩ := ending_of_fault? file hfault
    rw [token_eof_ofText file ht]
    rw [ht] at hstops
    cases hstops
    simp [ofText, htext]
  · intro d hd
    have hmem : d.token ∈ plainTokens (ofText file text).tokens := List.mem_map_of_mem hd
    rw [plainTokens_ofText] at hmem
    exact of_decide_eq_true (List.mem_filter.1 hmem).2
  · exact (skipped_attachFrom _ _ _ _ _ (by simp)).1
  · exact (skipped_attachFrom _ _ _ _ _ (by simp)).2
  · exact slots_attachFrom _ _ _ _ _

end

/-! ## The tokens of the parser -/

namespace Scanned

variable {i : Input}

theorem eof_kind (hi : i.Scanned) : i.eof.kind = .eof := by
  obtain ⟨pos, heof⟩ := hi.eof_empty
  rw [DocToken.kind, heof]
  rfl

/-- The tokens of the parser are those that are no comments. -/
theorem filter_raw (ts : List DocToken)
    (h : ∀ d ∈ ts, d.kind ≠ .comment ∧ ∀ c ∈ d.skipped, c.kind = .comment) :
    (ts.flatMap DocToken.raw).filter (·.kind ≠ .comment) = plainTokens ts := by
  induction ts with
  | nil => rfl
  | cons d ts ih =>
    obtain ⟨hd, hskipped⟩ := h d (by simp)
    have hnil : d.skipped.filter (·.kind ≠ .comment) = [] := by simpa using hskipped
    have hd' : d.token.kind ≠ .comment := hd
    have ih := ih fun d hd => h d (by simp [hd])
    rw [List.flatMap_cons, List.filter_append, ih, DocToken.raw, List.filter_append, hnil]
    simp [plainTokens, hd']

theorem plainTokens_eq (hi : i.Scanned) :
    plainTokens i.tokens = i.raw.filter (·.kind ≠ .comment) := by
  have hnil : i.eof.skipped.filter (·.kind ≠ .comment) = [] := by simpa using hi.eof_comments
  rw [Input.raw, List.filter_append, hnil, List.append_nil]
  exact (filter_raw _ fun d hd => ⟨hi.plain d hd, hi.comments d hd⟩).symm

theorem mem_raw {d : DocToken} (hd : d ∈ i.tokens) : d.token ∈ i.raw :=
  List.mem_append_left _ (List.mem_flatMap.2 ⟨d, hd, by simp [DocToken.raw]⟩)

theorem start_lt_stop (hi : i.Scanned) {d : DocToken} (hd : d ∈ i.tokens) :
    d.span.start < d.span.stop := by
  obtain ⟨rest, hscans, -⟩ := hi.scans
  exact hscans.start_lt_stop (mem_raw hd)

/-- The tokens of the parser stand one behind the other. -/
theorem order_at (hi : i.Scanned) {before after : List DocToken} {t : DocToken}
    (h : before ++ t :: after = i.tokens) :
    (∀ d ∈ before, d.span.start < t.span.start) ∧ t.span.start < t.span.stop ∧
      ∀ d ∈ after, t.span.stop ≤ d.span.start := by
  obtain ⟨rest, hscans, -⟩ := hi.scans
  have hordered := hscans.ordered.filter fun t => decide (t.kind ≠ .comment)
  rw [← hi.plainTokens_eq, ← h, plainTokens, List.pairwise_map, List.pairwise_append,
    List.pairwise_cons] at hordered
  obtain ⟨-, ⟨hafter, -⟩, hbefore⟩ := hordered
  refine ⟨fun d hd => ?_, hi.start_lt_stop (by simp [← h]), hafter⟩
  have hlt := hi.start_lt_stop (d := d) (by simp [← h, hd])
  have hle : d.span.stop ≤ t.span.start := hbefore d hd t (by simp)
  omega

theorem spelling (hi : i.Scanned) {d : DocToken} (hd : d ∈ i.tokens) {op : Operator}
    (hop : d.kind = .op op) (hne : op ≠ .notEqual) :
    d.lexeme = op.spelling ∧ d.span.stop = d.span.start + byteLength op.spelling.toList := by
  obtain ⟨rest, hscans, -⟩ := hi.scans
  exact hscans.spelling_of_mem (mem_raw hd) hop hne

end Scanned

/-! ## Pieces of the source -/

namespace Scanned

variable {i : Input} {ts ts' : List DocToken}

/-- The tokens as they were scanned, up to a token of the parser and behind
    it. -/
theorem raw_eq {before after : List DocToken} {t : DocToken}
    (h : i.tokens = before ++ t :: after) :
    i.raw = before.flatMap DocToken.raw ++ t.skipped ++ t.token ::
      (after.flatMap DocToken.raw ++ i.eof.skipped) := by
  simp [Input.raw, h, DocToken.raw]

/-- Between two tokens of the parser that follow each other there are comments. -/
theorem raw_eq_pair {before after : List DocToken} {t u : DocToken}
    (h : i.tokens = before ++ t :: u :: after) :
    i.raw = before.flatMap DocToken.raw ++ t.skipped ++ t.token :: u.skipped ++ u.token ::
      (after.flatMap DocToken.raw ++ i.eof.skipped) := by
  simp [raw_eq h, DocToken.raw]

/-- What stands between two places of the parser is a piece of the source. -/
theorem piece_between (hi : i.Scanned) (hts : ts <:+ i.tokens) (hts' : ts' <:+ ts)
    (hne : ts' ≠ ts) (hend : ts' = [] → i.fault? = none) :
    ∃ front body back, i.text = front ++ body ++ back ∧ body ≠ [] ∧
      (i.current ts).span.start = byteLength front ∧
      (i.current ts').span.start = byteLength front + byteLength body := by
  obtain ⟨rest, hscans, -⟩ := hi.scans
  obtain ⟨before, hbefore⟩ := hts
  obtain ⟨passed, rfl⟩ := hts'
  cases passed with
  | nil => exact absurd rfl hne
  | cons t passed =>
    rw [List.cons_append] at hbefore
    rw [raw_eq hbefore.symm] at hscans
    obtain ⟨front, back, htext, hstart, -, hscan⟩ := hscans.position
    have hcurrent : (i.current (t :: passed ++ ts')).span.start = byteLength front := by
      simpa [Input.current, DocToken.span] using hstart
    cases ts' with
    | nil =>
      obtain ⟨used, hused⟩ := hscan.suffix
      refine ⟨front, back, [], by simpa using htext, ?_, hcurrent, ?_⟩
      · rintro rfl
        obtain ⟨h, -⟩ := hscan.of_nil
        cases h
      · have heof := hi.eof (hend rfl)
        simp [Input.current, DocToken.span, heof, Scanner.endToken, htext]
    | cons t' after =>
      have hraw : t.token :: ((passed ++ t' :: after).flatMap DocToken.raw ++ i.eof.skipped) =
          (t.token :: passed.flatMap DocToken.raw ++ t'.skipped) ++ t'.token ::
            (after.flatMap DocToken.raw ++ i.eof.skipped) := by
        simp [DocToken.raw]
      rw [hraw] at hscan
      obtain ⟨body, back', rfl, hstop, hbody, -⟩ := hscan.position
      refine ⟨front, body, back', by simpa using htext, hbody (by simp), hcurrent, ?_⟩
      simpa [Input.current, DocToken.span] using hstop

/-- A token with those that follow it, as they were scanned. -/
theorem getLast?_raw {t : DocToken} (ts : List DocToken) :
    (t.token :: ts.flatMap DocToken.raw).getLast? = (t :: ts).getLast?.map (·.token) := by
  rcases List.eq_nil_or_concat ts with rfl | ⟨ts, u, rfl⟩
  · rfl
  · have hraw : t.token :: (ts ++ [u]).flatMap DocToken.raw =
        (t.token :: ts.flatMap DocToken.raw ++ u.skipped) ++ [u.token] := by
      simp [DocToken.raw]
    rw [List.concat_eq_append, hraw, ← List.cons_append, List.getLast?_concat, List.getLast?_concat]
    rfl

/-- The piece of the source that some tokens were scanned from, with the comments
    among them. -/
theorem piece_scans (hi : i.Scanned) {before after : List DocToken} {t u : DocToken}
    (hsplit : i.tokens = before ++ (t :: ts) ++ after) (hu : (t :: ts).getLast? = some u) :
    ∃ front body back, i.text = front ++ body ++ back ∧
      t.span.start = byteLength front ∧ u.span.stop = byteLength front + byteLength body ∧
      Scans (byteLength front) body (t.token :: ts.flatMap DocToken.raw) [] := by
  obtain ⟨rest, hscans, -⟩ := hi.scans
  have hraw : i.raw = (before.flatMap DocToken.raw ++ t.skipped) ++
      (t.token :: ts.flatMap DocToken.raw) ++ (after.flatMap DocToken.raw ++ i.eof.skipped) := by
    simp [Input.raw, hsplit, DocToken.raw]
  rw [hraw] at hscans
  have hlast : (t.token :: ts.flatMap DocToken.raw).getLast? = some u.token := by
    rw [getLast?_raw, hu]
    rfl
  obtain ⟨front, body, back, htext, hstart, hstop, hscan⟩ := hscans.segment rfl hlast
  rw [Nat.zero_add] at hstart hstop hscan
  exact ⟨front, body, back, htext, hstart, hstop, hscan⟩

/-- The tokens of the parser among those of a piece. -/
theorem filter_piece (hi : i.Scanned) {t : DocToken} (hmem : ∀ d ∈ t :: ts, d ∈ i.tokens) :
    (t.token :: ts.flatMap DocToken.raw).filter (·.kind ≠ .comment) = plainTokens (t :: ts) := by
  have hrest := filter_raw ts fun d hd =>
    ⟨hi.plain d (hmem d (by simp [hd])), hi.comments d (hmem d (by simp [hd]))⟩
  have hfirst : t.token.kind ≠ .comment := hi.plain t (hmem t (by simp))
  rw [List.filter_cons_of_pos (by simpa using hfirst), hrest]
  rfl

/-- The tokens that a production takes are those of a piece of the source. -/
theorem piece_of_tokens (hi : i.Scanned) {before after : List DocToken} {t u : DocToken}
    (hsplit : i.tokens = before ++ ts ++ after) (ht : ts.head? = some t)
    (hu : ts.getLast? = some u) :
    ∃ front body back raw, i.text = front ++ body ++ back ∧
      t.span.start = byteLength front ∧ u.span.stop = byteLength front + byteLength body ∧
      Scans (byteLength front) body raw [] ∧ raw.filter (·.kind ≠ .comment) = plainTokens ts := by
  obtain ⟨ts, rfl⟩ := List.head?_eq_some_iff.1 ht
  obtain ⟨front, body, back, htext, hstart, hstop, hscan⟩ := hi.piece_scans hsplit hu
  refine ⟨front, body, back, _, htext, hstart, hstop, hscan, hi.filter_piece fun d hd => ?_⟩
  rw [hsplit]
  exact List.mem_append_left _ (List.mem_append_right _ hd)

theorem stop_pos (hi : i.Scanned) {t : DocToken} (ht : t ∈ i.tokens) : 0 < t.span.stop := by
  obtain ⟨before, after, hsplit⟩ := List.append_of_mem ht
  have hsplit : i.tokens = before ++ [t] ++ after := by simpa using hsplit
  obtain ⟨front, body, back, raw, -, -, hstop, hscan, hraw⟩ := hi.piece_of_tokens hsplit rfl rfl
  have hbody : body ≠ [] := by
    rintro rfl
    rw [hscan.of_nil.1] at hraw
    cases hraw
  have := byteLength_pos hbody
  have : t.span.stop = byteLength front + byteLength body := hstop
  omega

end Scanned

end Input

/-! ## Sources -/

/-- The scanned input of a source whose offsets have 32 bits. -/
structure Input.Small (i : Input) : Prop extends Input.Scanned i where
  size_le : byteLength i.text ≤ maxOffset

namespace Input

theorem small_ofText (file : String) {text : List Char} (h : text.utf8Encode.size ≤ maxOffset) :
    (ofText file text).Small :=
  ⟨scanned_ofText file text, by rwa [size_utf8Encode] at h⟩

namespace Small

variable {i : Input}

/-- Pieces of the source have offsets of 32 bits too. -/
theorem piece_le (hi : i.Small) {front body back : List Char} (h : i.text = front ++ body ++ back) :
    byteLength body ≤ maxOffset := by
  have := hi.size_le
  rw [h, byteLength_append, byteLength_append] at this
  omega

/-- The tokens of a source that was scanned to its end. -/
theorem tokens?_source (hi : i.Small) (hfault : i.fault? = none) :
    tokens? i.text.utf8Encode = some i.raw := by
  obtain ⟨rest, hscans, hspacing⟩ := hi.scans
  obtain ⟨ts, hts, htokens⟩ := tokens?_of_scans hscans (hspacing hfault) hi.size_le
  have hshift : (fun t : Token => t.shift 0) = id := rfl
  rw [hshift, List.map_id] at hts
  rw [hts]
  exact htokens

end Small

end Input

theorem parse_of_ok {file : String} (hfile : file ≠ "") {source : ByteArray} {text : List Char}
    (h : readSource source = .ok text) : parse file source = (Input.ofText file text).parse := by
  unfold parse
  rw [if_neg (by simpa using hfile), h]

/-- What is no text, or too much of it, is refused before any token is read. -/
theorem parse_of_error {file : String} (hfile : file ≠ "") {source : ByteArray} {e : ScanError}
    (h : readSource source = .error e) :
    parse file source =
      ⟨[], .error ⟨file, 1 + (source.toList.take e.pos).count 10, .lexical e.fault⟩⟩ := by
  unfold parse
  rw [if_neg (by simpa using hfile), h]

/-- A source of four gigabytes or more is refused as a whole. -/
theorem parse_of_lt {file : String} (hfile : file ≠ "") {source : ByteArray}
    (h : maxOffset < source.size) :
    (parse file source).result = .error ⟨file, 1, .lexical .tooLarge⟩ := by
  rw [parse_of_error hfile (readSource_of_lt h), List.take_zero]
  rfl

theorem parse_utf8Encode {file : String} (hfile : file ≠ "") {text : List Char}
    (h : text.utf8Encode.size ≤ maxOffset) :
    parse file text.utf8Encode = (Input.ofText file text).parse :=
  parse_of_ok hfile (readSource_eq_ok_iff.2 ⟨h, rfl⟩)

/-- A source is parsed if it is a text that is, its offsets have 32 bits and its file
    has a name. -/
theorem parse_eq_ok_iff {file : String} {source : ByteArray} {f : SourceFile} :
    (parse file source).result = .ok f ↔ file ≠ "" ∧ source.size ≤ maxOffset ∧
      ∃ text, source = text.utf8Encode ∧ (Input.ofText file text).parse.result = .ok f := by
  by_cases hfile : file = ""
  · subst hfile
    simp [parse]
  constructor
  · intro h
    cases hread : readSource source with
    | error e =>
      rw [parse_of_error hfile hread] at h
      cases h
    | ok text =>
      rw [parse_of_ok hfile hread] at h
      obtain ⟨hsize, htext⟩ := readSource_eq_ok_iff.1 hread
      exact ⟨hfile, hsize, text, htext, h⟩
  · rintro ⟨-, hsize, text, rfl, h⟩
    rwa [parse_utf8Encode hfile hsize]

end PackageDoc
