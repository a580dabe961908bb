/-
  Comments lose their carriage returns and nothing else.

  A return in a block comment stays where a star stands before it and a slash behind
  it: without the return the two would close the comment.  `keptBehind` is what is kept
  of a text behind another one.  Where the text closes a comment at its end only, so
  does what is kept of it (`enclosed_keptBehind`): a star that has been kept meets a
  slash only if they have been neighbours before (`head?_of_keptBehind`).  So the lexeme
  of a comment is a comment again, and its own lexeme.

  Main statement: `comments_keep_shape`.
-/
import PackageDoc.Proofs.Token.Tiling

namespace PackageDoc

open Text

/-! ## What is kept -/

section
variable (stays : List Char → Bool)

/-- What is kept of a text behind `before`, which is given latest character first. -/
def keptBehind (before : List Char) : List Char → List Char
  | [] => []
  | c :: cs =>
    if c = '\r' ∧ ¬ (stays before = true ∧ cs.head? = some '/') then keptBehind before cs
    else c :: keptBehind (c :: before) cs

variable {stays} {before : List Char} {c : Char} {cs : List Char}

theorem keptBehind_dropped (h : c = '\r' ∧ ¬ (stays before = true ∧ cs.head? = some '/')) :
    keptBehind stays before (c :: cs) = keptBehind stays before cs := by
  rw [keptBehind, if_pos h]

theorem keptBehind_kept (h : ¬ (c = '\r' ∧ ¬ (stays before = true ∧ cs.head? = some '/'))) :
    keptBehind stays before (c :: cs) = c :: keptBehind stays (c :: before) cs := by
  rw [keptBehind, if_neg h]

theorem dropReturns_eq_append (before cs : List Char) :
    dropReturns stays before cs = before.reverse ++ keptBehind stays before cs := by
  fun_induction dropReturns stays before cs with
  | case1 before => simp [keptBehind]
  | case2 before cs hstays ih =>
    rw [keptBehind_kept (by simpa using hstays), ih]
    simp
  | case3 before cs hstays ih =>
    rw [keptBehind_dropped (by simpa using hstays), ih]
  | case4 before c cs hc ih =>
    rw [keptBehind_kept (fun h => hc h.1), ih]
    simp

theorem keptBehind_sublist (before cs : List Char) : (keptBehind stays before cs).Sublist cs := by
  induction cs generalizing before with
  | nil => exact List.Sublist.refl _
  | cons c cs ih =>
    rw [keptBehind]
    split
    · exact (ih before).cons c
    · exact (ih (c :: before)).cons_cons c

/-- A slash is kept, so what stands before it is still followed by it. -/
theorem head?_keptBehind_slash (h : cs.head? = some '/') :
    (keptBehind stays before cs).head? = some '/' := by
  obtain ⟨cs, rfl⟩ := List.head?_eq_some_iff.1 h
  rw [keptBehind_kept (by simp)]
  rfl

/-- Where a return would stay before a slash, what is kept starts with a slash only if
    the text does. -/
theorem head?_of_keptBehind (hstays : stays before = true)
    (h : (keptBehind stays before cs).head? = some '/') : cs.head? = some '/' := by
  induction cs with
  | nil => cases h
  | cons c cs ih =>
    by_cases hdropped : c = '\r' ∧ ¬ (stays before = true ∧ cs.head? = some '/')
    · rw [keptBehind_dropped hdropped] at h
      exact absurd ⟨hstays, ih h⟩ hdropped.2
    · rw [keptBehind_kept hdropped] at h
      exact h

theorem keptBehind_keptBehind (before cs : List Char) :
    keptBehind stays before (keptBehind stays before cs) = keptBehind stays before cs := by
  induction cs generalizing before with
  | nil => rfl
  | cons c cs ih =>
    by_cases hdropped : c = '\r' ∧ ¬ (stays before = true ∧ cs.head? = some '/')
    · rw [keptBehind_dropped hdropped, ih]
    · have hkept : ¬ (c = '\r' ∧ ¬ (stays before = true ∧
          (keptBehind stays (c :: before) cs).head? = some '/')) := by
        rintro ⟨hc, hslash⟩
        exact hdropped ⟨hc, fun h => hslash ⟨h.1, head?_keptBehind_slash h.2⟩⟩
      rw [keptBehind_kept hdropped, keptBehind_kept hkept, ih]

/-- Nothing is lost but returns. -/
theorem filter_keptBehind (before cs : List Char) :
    (keptBehind stays before cs).filter (· != '\r') = cs.filter (· != '\r') := by
  induction cs generalizing before with
  | nil => rfl
  | cons c cs ih =>
    by_cases hdropped : c = '\r' ∧ ¬ (stays before = true ∧ cs.head? = some '/')
    · rw [keptBehind_dropped hdropped, ih, hdropped.1]
      rfl
    · rw [keptBehind_kept hdropped, List.filter_cons, List.filter_cons, ih]

end

/-! ## The closing mark -/

/-- A text closes a comment at its end only if it is a closing mark, or does not start
    with one and goes on with such a text. -/
theorem enclosed_cons {c : Char} {cs : List Char} :
    Enclosed (c :: cs) ↔
      c = '*' ∧ cs = ['/'] ∨ ¬ (c = '*' ∧ cs.head? = some '/') ∧ Enclosed cs := by
  by_cases h : c = '*' ∧ cs.head? = some '/'
  · obtain ⟨rfl, hcs⟩ := h
    obtain ⟨ds, rfl⟩ := List.head?_eq_some_iff.1 hcs
    simp [Enclosed, splitComment?, eq_comm]
  · have hmark : ¬ (c = '*' ∧ cs = ['/']) := by
      rintro ⟨rfl, rfl⟩
      exact h ⟨rfl, rfl⟩
    rw [Enclosed, splitComment?_cons h]
    simp [Enclosed, h, hmark, Prod.ext_iff]

/-- The closing mark stands at the end. -/
theorem Enclosed.closes {cs : List Char} (h : Enclosed cs) : ['*', '/'] <:+ cs := by
  induction cs with
  | nil => cases h
  | cons c cs ih =>
    rcases enclosed_cons.1 h with ⟨rfl, rfl⟩ | ⟨-, h⟩
    · exact List.suffix_refl _
    · exact (ih h).trans (List.suffix_cons _ _)

/-- The closing mark stands nowhere else. -/
theorem Enclosed.eq_nil {cs front back : List Char} (h : Enclosed cs)
    (hsplit : cs = front ++ '*' :: '/' :: back) : back = [] := by
  subst hsplit
  induction front with
  | nil =>
    rcases enclosed_cons.1 h with ⟨-, h⟩ | ⟨h, -⟩
    · exact (List.cons.inj h).2
    · exact absurd ⟨rfl, rfl⟩ h
  | cons c front ih =>
    rcases enclosed_cons.1 h with ⟨-, h⟩ | ⟨-, h⟩
    · have hlength : (front ++ '*' :: '/' :: back).length = 1 := congrArg List.length h
      simp only [List.length_append, List.length_cons] at hlength
      omega
    · exact ih h

/-! ## Block comments -/

/-- Whether a return stays before a slash: behind a star that is not that of the opening
    mark. -/
def staysBehind (before : List Char) : Bool := 2 < byteLength before && before.head? == some '*'

/-- Behind the opening mark, what is kept closes the comment where the text does. -/
theorem enclosed_keptBehind {before cs : List Char} (h : Enclosed cs)
    (hopen : 2 ≤ byteLength before) : Enclosed (keptBehind staysBehind before cs) := by
  induction cs generalizing before with
  | nil => cases h
  | cons c cs ih =>
    have hbehind : 2 < byteLength (c :: before) := by
      have := c.utf8Size_pos
      rw [byteLength_cons]
      omega
    rcases enclosed_cons.1 h with ⟨rfl, rfl⟩ | ⟨hmark, h⟩
    · rfl
    · by_cases hdropped : c = '\r' ∧ ¬ (staysBehind before = true ∧ cs.head? = some '/')
      · rw [keptBehind_dropped hdropped]
        exact ih h hopen
      · rw [keptBehind_kept hdropped]
        refine enclosed_cons.2 (.inr ⟨?_, ih h (Nat.le_of_lt hbehind)⟩)
        rintro ⟨rfl, hslash⟩
        have hstays : staysBehind ('*' :: before) = true := by
          simpa only [staysBehind, Bool.and_eq_true, decide_eq_true_eq] using ⟨hbehind, rfl⟩
        exact hmark ⟨rfl, head?_of_keptBehind hstays hslash⟩

theorem blockCommentLexeme_eq (cs : List Char) :
    blockCommentLexeme cs = keptBehind staysBehind [] cs :=
  dropReturns_eq_append [] cs

/-- Behind the opening mark stands what is kept of the text. -/
theorem blockCommentLexeme_open (body : List Char) :
    blockCommentLexeme ('/' :: '*' :: body) = '/' :: '*' :: keptBehind staysBehind ['*', '/'] body :=
  dropReturns_eq_append ['*', '/'] body

theorem blockCommentLexeme_idem (cs : List Char) :
    blockCommentLexeme (blockCommentLexeme cs) = blockCommentLexeme cs := by
  rw [blockCommentLexeme_eq, blockCommentLexeme_eq, keptBehind_keptBehind]

theorem filter_blockCommentLexeme (cs : List Char) :
    (blockCommentLexeme cs).filter (· != '\r') = cs.filter (· != '\r') := by
  rw [blockCommentLexeme_eq, filter_keptBehind]

theorem blockCommentLexeme_sublist (cs : List Char) : (blockCommentLexeme cs).Sublist cs := by
  rw [blockCommentLexeme_eq]
  exact keptBehind_sublist [] cs

theorem lineCommentLexeme_idem (cs : List Char) :
    lineCommentLexeme (lineCommentLexeme cs) = lineCommentLexeme cs := by
  simp [lineCommentLexeme]

/-! ## Comments -/

/-- A comment from `--` on, which goes up to the end of a line. -/
structure LineText (cs : List Char) : Prop where
  opens : ['-', '-'] <+: cs
  oneLine : '\n' ∉ cs

/-- A comment from `/*` to `*/`, which is closed by the first `*/` behind its opening
    mark. -/
structure BlockText (cs : List Char) : Prop where
  opens : ['/', '*'] <+: cs
  closes : ['*', '/'] <:+ cs.drop 2
  first : ∀ front back, cs.drop 2 = front ++ '*' :: '/' :: back → back = []

theorem blockText_of_enclosed {body : List Char} (h : Enclosed body) :
    BlockText ('/' :: '*' :: body) :=
  ⟨List.prefix_append ['/', '*'] body, h.closes, fun _ _ => h.eq_nil⟩

/-- The lexeme of a comment is a comment of the same form, and its own lexeme. -/
theorem Reads.comment_again {kind : TokenKind} {lexeme piece rest : List Char}
    (h : Reads kind lexeme piece rest) (hkind : kind = .comment) :
    Reads .comment lexeme lexeme [] ∧
      (LineText piece ∧ LineText lexeme ∨ BlockText piece ∧ BlockText lexeme) ∧
      lexeme.filter (· != '\r') = piece.filter (· != '\r') := by
  cases h with
  | @lineComment cs _ hcs _ =>
    have hlexeme : lineCommentLexeme ('-' :: '-' :: cs) = '-' :: '-' :: lineCommentLexeme cs := rfl
    have hplain : ∀ d ∈ lineCommentLexeme cs, d ≠ '\n' :=
      fun d hd => hcs d (List.mem_of_mem_filter hd)
    have hline : ∀ {ds : List Char}, (∀ d ∈ ds, d ≠ '\n') → LineText ('-' :: '-' :: ds) := by
      intro ds hds
      refine ⟨List.prefix_append ['-', '-'] ds, ?_⟩
      simpa using fun h => hds _ h rfl
    have hread : Reads _ _ _ [] := Reads.lineComment hplain (by simp)
    rw [← hlexeme, lineCommentLexeme_idem] at hread
    refine ⟨hread, .inl ⟨hline hcs, hlexeme ▸ hline hplain⟩, ?_⟩
    simp [lineCommentLexeme]
  | @blockComment body _ hbody =>
    have hkept : Enclosed (keptBehind staysBehind ['*', '/'] body) :=
      enclosed_keptBehind hbody (by decide)
    have hread : Reads _ _ _ [] := Reads.blockComment hkept
    rw [← blockCommentLexeme_open, blockCommentLexeme_idem] at hread
    refine ⟨hread, .inr ⟨blockText_of_enclosed hbody, ?_⟩, filter_blockCommentLexeme _⟩
    rw [blockCommentLexeme_open]
    exact blockText_of_enclosed hkept
  | word =>
    unfold wordKind at hkind
    split at hkind <;> cases hkind
  | _ => cases hkind

/-- A comment takes no more bytes than were read. -/
theorem Reads.comment_le {kind : TokenKind} {lexeme piece rest : List Char}
    (h : Reads kind lexeme piece rest) (hkind : kind = .comment) :
    byteLength lexeme ≤ byteLength piece := by
  cases h with
  | word =>
    unfold wordKind at hkind
    split at hkind <;> cases hkind
  | lineComment => exact byteLength_le_of_sublist List.filter_sublist
  | blockComment => exact byteLength_le_of_sublist (blockCommentLexeme_sublist _)
  | _ => cases hkind

/-- A comment without its returns is the comment that was written in the source as
    `piece`: of the same form, with the same text up to returns, and read as itself. -/
structure Token.KeepsComment (piece : List Char) (t : Token) : Prop where
  alone : tokens? t.lexeme.toUTF8 = some [⟨.comment, t.lexeme, 0, t.lexeme.toUTF8.size⟩]
  form : LineText piece ∧ LineText t.lexeme.toList ∨ BlockText piece ∧ BlockText t.lexeme.toList
  text : t.lexeme.toList.filter (· != '\r') = piece.filter (· != '\r')

/-- **Removing returns does not change what a comment is.**  Every comment of a source,
    be the source faulty behind it, is the same comment with its lexeme for its source;
    and what has lost its returns has none left to lose. -/
theorem comments_keep_shape {source : ByteArray} {text : List Char}
    (h : readSource source = .ok text) :
    (∀ t ∈ (scanText text).tokens, t.kind = .comment →
      ∃ piece, source.extract t.span.start t.span.stop = piece.utf8Encode ∧ t.KeepsComment piece) ∧
      (∀ cs, blockCommentLexeme (blockCommentLexeme cs) = blockCommentLexeme cs) ∧
      ∀ cs, lineCommentLexeme (lineCommentLexeme cs) = lineCommentLexeme cs := by
  refine ⟨fun t ht hkind => ?_, blockCommentLexeme_idem, lineCommentLexeme_idem⟩
  obtain ⟨used, rest, passed, htext, hscans, -⟩ := scans_of_scanText text
  rw [← htext] at hscans
  obtain ⟨before, after, hsplit⟩ := List.append_of_mem ht
  rw [hsplit] at hscans
  obtain ⟨front, lexeme, piece, mid, rfl, hread, hpiece, -⟩ := hscans.reads_at
  obtain ⟨halone, hform, hfilter⟩ := hread.comment_again hkind
  obtain ⟨hsize, hsource⟩ := readSource_eq_ok_iff.1 h
  have hlexeme : t.lexeme.toList = lexeme := by rw [hpiece]; simp [Token.ofPiece]
  refine ⟨piece, ?_, ?_, hlexeme ▸ hform, hlexeme ▸ hfilter⟩
  · rw [hsource, hpiece, Nat.zero_add]
    exact extract_utf8Encode front piece mid
  · have hle : byteLength lexeme ≤ maxOffset := by
      rw [hsource, size_utf8Encode, byteLength_append, byteLength_append] at hsize
      have := hread.comment_le hkind
      omega
    rw [String.toUTF8_eq_toByteArray, ← String.utf8Encode_toList, hlexeme,
      tokens?_of_reads halone hle, size_utf8Encode, ← hlexeme]
    simp [Token.ofPiece]

/-- A comment with stars before returns, in a source that is faulty behind it. -/
def starredText : List Char := "/**\r\r/*\r/\r*/|".toList

/-- Of its four returns two keep it from being closed too early. -/
theorem comments_keep_shape_starred :
    ∃ t ∈ (scanText starredText).tokens, t.kind = .comment ∧ t.lexeme = "/**\r/*\r/*/" ∧
      ∃ piece, starredText.utf8Encode.extract t.span.start t.span.stop = piece.utf8Encode ∧
        t.KeepsComment piece := by
  have hscan : (scanText starredText).tokens = [⟨.comment, "/**\r/*\r/*/", 0, 12⟩] := by
    decide +kernel
  refine ⟨_, hscan ▸ List.mem_singleton_self _, rfl, rfl, ?_⟩
  have hread : readSource starredText.utf8Encode = .ok starredText :=
    readSource_utf8Encode (by decide +kernel)
  exact (comments_keep_shape hread).1 _
    (hscan ▸ List.mem_singleton_self _) rfl

end PackageDoc
