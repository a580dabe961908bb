/-
  Line ends of two characters make no difference.

  A source whose lines end with a carriage return and a line feed is parsed like the
  source whose lines end with a line feed: the returns show only in strings and in
  queries, which keep them as they stand, and in offsets.  The scans of the two were
  compared in `Token.LineEnds`; here the comments follow, which are attached by the
  lines of tokens (`attachFrom_returned`), and then the parser, which sees two inputs
  that have a likeness (`Likeness.ofReturns`).  The returns may make a source too large
  (`parse_bytesWithReturns_lineFeeds`).

  Main statement: `parse_bytesWithReturns`.
-/
import PackageDoc.Proofs.Parser.Blame
import PackageDoc.Proofs.Token.LineEnds

namespace PackageDoc

open Text

/-! ## Lines -/

/-- The lines of a text are those that it has with returns. -/
theorem lineAt_withReturns {text : List Char} {m n : Nat} (h : ReturnedAt text m n) :
    lineAt (withReturns text).utf8Encode n = lineAt text.utf8Encode m := by
  obtain ⟨front, back, rfl, rfl, rfl⟩ := h
  rw [withReturns_append, List.utf8Encode_append, List.utf8Encode_append, lineAt, lineAt,
    count_take_utf8Encode, count_take_utf8Encode, newlines_withReturns]

/-- The token `u` is, with returns, what `t` is in a text, and on the same line. -/
def Token.ReturnedOn (text : List Char) (lines lines' : LineTable) (t u : Token) : Prop :=
  t.Returned text u ∧ lines'.line u.pos = lines.line t.pos

theorem ReturnedEnding.lastToken {text : List Char} {ending ending' : Except ScanError Token}
    (h : ReturnedEnding text ending ending') :
    (lastToken ending).Returned text (PackageDoc.lastToken ending') := by
  cases h with
  | ok h => exact h
  | error _ hplace => exact ⟨rfl, rfl, hplace⟩

section
variable {text : List Char}

/-- The tokens of a text and those with returns stand on the same lines. -/
theorem Token.Returned.line {t u : Token} (h : t.Returned text u)
    (ht : t = lastToken (scanText text).ending ∨ t ∈ (scanText text).tokens)
    (hu : u = lastToken (scanText (withReturns text)).ending ∨
      u ∈ (scanText (withReturns text)).tokens) :
    t.ReturnedOn text (scanText text).lines (scanText (withReturns text)).lines u := by
  refine ⟨h, ?_⟩
  rw [line_scanText _ hu, line_scanText _ ht, lineAt_withReturns h.place]

theorem forall₂_returnedOn (h : '\r' ∉ text) :
    List.Forall₂ (Token.ReturnedOn text (scanText text).lines (scanText (withReturns text)).lines)
      (scanText text).tokens (scanText (withReturns text)).tokens := by
  rw [List.forall₂_iff_get]
  obtain ⟨hlength, hget⟩ := List.forall₂_iff_get.1 (scanText_withReturns h).1
  exact ⟨hlength, fun k hk hk' =>
    (hget k hk hk').line (.inr (List.get_mem _ _)) (.inr (List.get_mem _ _))⟩

end

/-! ## Comments -/

/-- The token `e` of the parser is, with returns, what `d` is in a text. -/
structure DocToken.Returned (text : List Char) (d e : DocToken) : Prop where
  token : d.token.Returned text e.token
  line : e.line = d.line
  slots : e.slots.map .unplaced = d.slots.map .unplaced

section
variable {text : List Char} {lines lines' : LineTable} {skipped skipped' ts us : List Token}
  {t u : Token}

/-- Comments with returns stand on the lines that they stood on, and say the same. -/
theorem placed_returned
    (hskipped : List.Forall₂ (Token.ReturnedOn text lines lines') skipped skipped')
    (hcomments : ∀ c ∈ skipped, c.kind = .comment) :
    (skipped'.map (PlacedComment.ofToken lines')).map (·.move .unplaced 0) =
      (skipped.map (PlacedComment.ofToken lines)).map (·.move .unplaced 0) := by
  induction hskipped with
  | nil => rfl
  | @cons t u skipped skipped' htu _ ih =>
    obtain ⟨ht, hrest⟩ := List.forall_mem_cons.1 hcomments
    obtain ⟨hreturned, hline⟩ := htu
    have hlexeme : u.lexeme = t.lexeme := by
      rw [hreturned.lexeme, returnedLexeme, if_neg (by simp [ht]), String.ofList_toList]
    have hplaced : (PlacedComment.ofToken lines' u).move .unplaced 0 =
        (PlacedComment.ofToken lines t).move .unplaced 0 := by
      simp only [PlacedComment.ofToken, PlacedComment.move, Comment.unplaced, hline, hlexeme]
    rw [List.map_cons, List.map_cons, List.map_cons, List.map_cons, hplaced, ih hrest]

theorem docToken_returned (previous : Option Nat)
    (hskipped : List.Forall₂ (Token.ReturnedOn text lines lines') skipped skipped')
    (hcomments : ∀ c ∈ skipped, c.kind = .comment) (htu : t.ReturnedOn text lines lines' u) :
    (docToken lines previous skipped t).Returned text (docToken lines' previous skipped' u) := by
  obtain ⟨hreturned, hline⟩ := htu
  refine ⟨hreturned, hline, ?_⟩
  have hfollows : Follows 0 previous previous := .inl (by simp)
  have hslots := commentSlots_move .unplaced hfollows (skipped.map (PlacedComment.ofToken lines))
    (by simp [PlacedComment.ofToken, LineTable.line_pos]) (lines.line t.pos) (t.kind = .eof)
  have hslots' := commentSlots_move .unplaced hfollows (skipped'.map (PlacedComment.ofToken lines'))
    (by simp [PlacedComment.ofToken, LineTable.line_pos]) (lines.line t.pos) (t.kind = .eof)
  rw [placed_returned hskipped hcomments, hslots] at hslots'
  simp only [docToken, hline, hreturned.kind]
  exact hslots'.symm

/-- **Comments are attached to the tokens that they were attached to.**  The comments
    since the last token are kept with those that they became. -/
theorem attachFrom_returned {eof eof' : Token} {previous : Option Nat}
    (hts : List.Forall₂ (Token.ReturnedOn text lines lines') ts us)
    (heof : eof.ReturnedOn text lines lines' eof')
    (hskipped : List.Forall₂ (Token.ReturnedOn text lines lines') skipped skipped')
    (hcomments : ∀ c ∈ skipped, c.kind = .comment) :
    List.Forall₂ (DocToken.Returned text) (attachFrom lines eof previous skipped ts).1
        (attachFrom lines' eof' previous skipped' us).1 ∧
      (attachFrom lines eof previous skipped ts).2.Returned text
        (attachFrom lines' eof' previous skipped' us).2 := by
  have hreverse : ∀ {skipped skipped' : List Token},
      List.Forall₂ (Token.ReturnedOn text lines lines') skipped skipped' →
      List.Forall₂ (Token.ReturnedOn text lines lines') skipped.reverse skipped'.reverse :=
    fun h => List.rel_reverse h
  induction hts generalizing previous skipped skipped' with
  | nil => exact ⟨.nil, docToken_returned _ (hreverse hskipped) (by simpa using hcomments) heof⟩
  | @cons t u ts us htu _ ih =>
    rw [attachFrom, attachFrom, htu.1.kind]
    by_cases hcomment : t.kind = .comment
    · rw [if_pos hcomment, if_pos hcomment]
      exact ih (.cons htu hskipped) (by simpa [hcomment] using hcomments)
    · rw [if_neg hcomment, if_neg hcomment]
      have hd := docToken_returned previous (hreverse hskipped) (by simpa using hcomments) htu
      obtain ⟨hmore, hend⟩ := @ih [] [] (some (docToken lines previous skipped.reverse t).line) .nil
        (by simp)
      simp only [hd.line]
      exact ⟨.cons hd hmore, hend⟩

end

/-! ## Inputs -/

/-- The input `j` is `i` where lines end with returns. -/
structure Input.Returned (i j : Input) : Prop where
  file : i.file = j.file
  text : j.text = withReturns i.text
  tokens : List.Forall₂ (DocToken.Returned i.text) i.tokens j.tokens
  eof : i.eof.Returned i.text j.eof
  fault : (i.fault? = none ∧ j.fault? = none) ∨ ∃ e e', i.fault? = some e ∧ j.fault? = some e' ∧
    i.scanError e = j.scanError e'

/-- **The input of a text, and of the text with returns.** -/
theorem ofText_returned (file : String) {text : List Char} (h : '\r' ∉ text) :
    (Input.ofText file text).Returned (Input.ofText file (withReturns text)) := by
  have hending := (scanText_withReturns h).2
  have hend := hending.lastToken.line (.inl rfl) (.inl rfl)
  have hattach := @attachFrom_returned text _ _ [] [] _ _ _ _ none (forall₂_returnedOn h) hend .nil
    (by simp)
  rw [← attached_ofText file text, ← attached_ofText file (withReturns text)] at hattach
  refine ⟨rfl, rfl, hattach.1, hattach.2, ?_⟩
  have hline := hend.2
  generalize hscan : (scanText text).ending = ending at hending hline
  generalize hscan' : (scanText (withReturns text)).ending = ending' at hending hline
  cases hending with
  | ok =>
    exact .inl ⟨Input.fault?_ofText_eq_none file hscan, Input.fault?_ofText_eq_none file hscan'⟩
  | @error e e' hfault _ =>
    refine .inr ⟨e, e', by simp only [Input.ofText, hscan], by simp only [Input.ofText, hscan'], ?_⟩
    have hlines : (Input.ofText file (withReturns text)).lines.line e'.pos =
        (Input.ofText file text).lines.line e.pos := hline
    rw [Input.scanError, Input.scanError, hlines, hfault]
    rfl

namespace Likeness

variable {i j : Input}

/-- Inputs are compared up to offsets and carriage returns, and by their errors. -/
def returnsComparison : Comparison where
  left := .withoutReturns
  right := .withoutReturns
  error e e' := e = e'

theorem returnsComparison_token (hfile : i.file = j.file) {text : List Char} {d e : DocToken}
    (h : d.Returned text e) : returnsComparison.Token i j d e where
  kind := h.token.kind.symm
  word hstring := by
    have hlexeme := h.token.lexeme
    rw [returnedLexeme, if_neg (show d.token.kind ≠ .string from hstring),
      String.ofList_toList] at hlexeme
    exact hlexeme.symm
  text := by
    have hlexeme := h.token.lexeme
    show withoutReturns d.token.lexeme = withoutReturns e.token.lexeme
    rw [hlexeme, returnedLexeme]
    split
    · rw [withoutReturns_withReturns, String.ofList_toList]
    · rw [String.ofList_toList]
  start := rfl
  stop := rfl
  inner := rfl
  lead := (congrArg CommentSlots.lead h.slots).symm
  field := by
    have hlead := congrArg CommentSlots.lead h.slots
    have hline := congrArg CommentSlots.line h.slots
    simp only [CommentSlots.map] at hlead hline
    simp only [returnsComparison, Recast.withoutReturns, DocToken.fieldDoc, Option.map_or, hlead, hline]
  fails fault := by
    simp only [returnsComparison, Input.errorAt, hfile, h.line]

/-- Where two inputs stand that have as many tokens left. -/
theorem returned_current (h : i.Returned j) {ts us : List DocToken}
    (hts : returnsComparison.Tokens i j ts us) :
    (i.current ts).Returned i.text (j.current us) := by
  have hdrop := List.forall₂_drop (i.tokens.length - ts.length) h.tokens
  have hleft := List.suffix_iff_eq_drop.1 hts.left
  have hright := List.suffix_iff_eq_drop.1 hts.right
  rw [← h.tokens.length_eq, ← hts.alike.length_eq] at hright
  rw [← hleft, ← hright] at hdrop
  cases hdrop with
  | nil => exact h.eof
  | cons hd _ => exact hd

/-- A text and the text with returns are alike. -/
def ofReturns (h : i.Returned j) : Likeness i j where
  toComparison := returnsComparison
  left_max _ _ := rfl
  right_max _ _ := rfl
  succ _ := rfl
  text_eq := rfl
  text_append := withoutReturns_append
  eof := returnsComparison_token h.file h.eof
  fault := h.fault
  query {ts us ts' us'} hts hts' _ _ := by
    obtain ⟨front, back, hfront, hstart, hstart'⟩ := (returned_current h hts).token.place
    obtain ⟨front', back', hfront', hstop, hstop'⟩ := (returned_current h hts').token.place
    have hslice := slice_withReturns hfront hfront'
    rw [← hstart, ← hstart', ← hstop, ← hstop', ← h.text] at hslice
    have hquery : String.ofList (slice j.text (j.current us).span.start (j.current us').span.start) =
        String.ofList
          (withReturns (slice i.text (i.current ts).span.start (i.current ts').span.start)) :=
      congrArg String.ofList hslice
    rw [hquery]
    exact (withoutReturns_withReturns _).symm

end Likeness

/-- **An input is parsed as it is with returns**, up to offsets and returns. -/
theorem Input.Returned.parse {i j : Input} (h : i.Returned j) :
    j.parse.result.map (·.recast .withoutReturns) =
      i.parse.result.map (·.recast .withoutReturns) := by
  have htokens : List.Forall₂ (Likeness.returnsComparison.Token i j) i.tokens j.tokens :=
    h.tokens.imp fun _ _ => Likeness.returnsComparison_token h.file
  rcases (Likeness.ofReturns h).parse htokens with ⟨ps, qs, hps, hqs, hpq⟩ | ⟨e, e', he, he', hee⟩
  · rw [hps, hqs, h.file]
    exact congrArg (fun packages => Except.ok (SourceFile.mk j.file packages)) hpq.symm
  · rw [he, he']
    exact congrArg Except.error hee.symm

/-! ## Sources -/

/-- Two tokens of sources with the given lines that differ in the returns of strings at
    most. -/
structure Token.AgreesWith (lines lines' : LineTable) (t u : Token) : Prop where
  kind : u.kind = t.kind
  lexeme : u.lexeme = String.ofList (returnedLexeme t.kind t.lexeme.toList)
  line : lines'.line u.pos = lines.line t.pos

/-- Two scans that give tokens which agree one by one, or find the same fault. -/
inductive ScansAgree : Except ScanError (List Token × LineTable) →
    Except ScanError (List Token × LineTable) → Prop where
  | ok {ts us : List Token} {lines lines' : LineTable} :
      List.Forall₂ (Token.AgreesWith lines lines') ts us →
      ScansAgree (.ok (ts, lines)) (.ok (us, lines'))
  | error {e e' : ScanError} : e'.fault = e.fault → ScansAgree (.error e) (.error e')

/-- **The tokens of a source with returns.** -/
theorem scansAgree_withReturns {text : List Char} (h : '\r' ∉ text) {source source' : ByteArray}
    (hread : readSource source = .ok text) (hread' : readSource source' = .ok (withReturns text)) :
    ScansAgree (scanSource source) (scanSource source') := by
  simp only [scanSource, hread, hread']
  have hending := (scanText_withReturns h).2
  have htokens := forall₂_returnedOn h
  generalize (scanText text).ending = ending at hending ⊢
  generalize (scanText (withReturns text)).ending = ending' at hending ⊢
  cases hending with
  | ok _ =>
    exact .ok (htokens.imp fun t u htu => ⟨htu.1.kind, htu.1.lexeme, htu.2⟩)
  | error hfault _ => exact .error hfault

/-- **Line ends of two characters make no difference.**  A source that holds no
    carriage return and the source with one before each line feed have the same
    tokens, on the same lines, but for the returns in strings, or the same fault.  They
    are parsed to the same file, docs included, up to offsets and returns, or refused
    for the same reason on the same line.  The returns must not make the source too
    large. -/
theorem parse_bytesWithReturns {source : ByteArray} (h : 13 ∉ source.toList)
    (hsize : (bytesWithReturns source).size ≤ maxOffset) (file : String) :
    ScansAgree (scanSource source) (scanSource (bytesWithReturns source)) ∧
      (parse file (bytesWithReturns source)).result.map (·.recast .withoutReturns) =
        (parse file source).result.map (·.recast .withoutReturns) := by
  have hle : source.size ≤ maxOffset := Nat.le_trans (size_le_bytesWithReturns source) hsize
  rcases decode_bytesWithReturns h with ⟨text, htext, hreturn, hbytes⟩ | ⟨pos, pos', hpos, hpos', hline⟩
  · have hread := readSource_eq_ok_iff.2 ⟨hle, htext⟩
    have hread' := readSource_eq_ok_iff.2 ⟨hsize, hbytes⟩
    refine ⟨scansAgree_withReturns hreturn hread hread', ?_⟩
    by_cases hfile : file = ""
    · simp only [parse, hfile]
      rfl
    · rw [parse_of_ok hfile hread, parse_of_ok hfile hread']
      exact (ofText_returned file hreturn).parse
  · have hread := readSource_of_le hle hpos
    have hread' := readSource_of_le hsize hpos'
    constructor
    · simp only [scanSource, hread, hread']
      exact .error rfl
    · by_cases hfile : file = ""
      · simp only [parse, hfile]
        rfl
      · rw [parse_of_error hfile hread, parse_of_error hfile hread', hline]

/-- A source with line feeds in a doc, a string and a query. -/
def foldedSource : ByteArray :=
  "create package p is\n/* all\n*\n/ */\nc constant t := 'a\nb';\ncursor q is select\n1;\nend p;".toUTF8

/-- The string keeps its return, the doc does not. -/
theorem parse_bytesWithReturns_folded :
    13 ∉ foldedSource.toList ∧ (bytesWithReturns foldedSource).size ≤ maxOffset ∧
      ScansAgree (scanSource foldedSource) (scanSource (bytesWithReturns foldedSource)) ∧
      (parse "p.pks" (bytesWithReturns foldedSource)).result.map (·.recast .withoutReturns) =
        (parse "p.pks" foldedSource).result.map (·.recast .withoutReturns) := by
  have hreturn : 13 ∉ foldedSource.toList := by decide +kernel
  have hsize : (bytesWithReturns foldedSource).size ≤ maxOffset := by decide +kernel
  exact ⟨hreturn, hsize, parse_bytesWithReturns hreturn hsize "p.pks"⟩

/-- A text of spacing is a file without packages. -/
theorem parse_spacing {file : String} (hfile : file ≠ "") {text : List Char} (h : Spacing text)
    (hsize : text.utf8Encode.size ≤ maxOffset) :
    (parse file text.utf8Encode).result = .ok ⟨file, []⟩ := by
  have htext := @scanText_eq [] text _ _ _ .nil (.eof h)
  have htokens : (Input.ofText file text).tokens = [] := by
    simp only [Input.ofText, List.nil_append] at htext ⊢
    rw [htext]
    rfl
  refine parse_eq_ok_iff.2 ⟨hfile, hsize, text, rfl, Input.parse_eq_ok.2 ⟨fun _ => ?_, rfl, [], ?_⟩⟩
  · exact Input.fault?_ofText_eq_none file (congrArg (·.ending) htext)
  · rw [htokens]
    exact Parser.outcome_packages_nil

/-- A source of line feeds. -/
def lineFeeds (n : Nat) : ByteArray := (List.replicate n 10).toByteArray

theorem toList_lineFeeds (n : Nat) : (lineFeeds n).toList = List.replicate n 10 := by
  simp [lineFeeds, toList_eq]

theorem utf8Encode_replicate (n : Nat) : (List.replicate n '\n').utf8Encode = lineFeeds n := by
  rw [← toByteArray_toList (List.replicate n '\n').utf8Encode]
  refine congrArg List.toByteArray ?_
  induction n with
  | zero => simp [toList_eq]
  | succ n ih =>
    rw [List.replicate_succ, toList_utf8Encode_cons, ih]
    rfl

theorem size_lineFeeds (n : Nat) : (lineFeeds n).size = n := by
  rw [← length_toList, toList_lineFeeds, List.length_replicate]

theorem size_bytesWithReturns_lineFeeds (n : Nat) :
    (bytesWithReturns (lineFeeds n)).size = 2 * n := by
  simp [bytesWithReturns, toList_lineFeeds, returnBytes, Nat.mul_comm]

theorem parse_lineFeeds {file : String} (hfile : file ≠ "") {n : Nat} (h : n ≤ maxOffset) :
    (parse file (lineFeeds n)).result = .ok ⟨file, []⟩ := by
  rw [← utf8Encode_replicate]
  refine parse_spacing hfile (by simp [Spacing, isSpacing]) ?_
  rwa [utf8Encode_replicate, size_lineFeeds]

/-- With returns there are twice as many bytes. -/
theorem parse_bytesWithReturns_lineFeeds {file : String} (hfile : file ≠ "") {n : Nat}
    (h : maxOffset < 2 * n) :
    (parse file (bytesWithReturns (lineFeeds n))).result =
      .error ⟨file, 1, .lexical .tooLarge⟩ := by
  rw [← size_bytesWithReturns_lineFeeds] at h
  exact parse_of_lt hfile h

/-- The texts of the bounds of arrays in a file. -/
def SourceFile.bounds (f : SourceFile) : List String :=
  f.packages.flatMap fun p => p.types.filterMap fun t => t.body.bound?.map (·.name)

/-- A source with a line feed in the bound of an array. -/
def boundSource : ByteArray :=
  "create package p is\ntype t is varray('a\nb') of x;\nend p;".toUTF8

/-- Returns make a source of line feeds too large, and the bound of an array keeps them. -/
theorem parse_bytesWithReturns_ne :
    (13 ∉ (lineFeeds maxOffset).toList ∧
      (parse "p.pks" (lineFeeds maxOffset)).result = .ok ⟨"p.pks", []⟩ ∧
      (parse "p.pks" (bytesWithReturns (lineFeeds maxOffset))).result =
        .error ⟨"p.pks", 1, .lexical .tooLarge⟩) ∧
    13 ∉ boundSource.toList ∧
      (parse "p.pks" boundSource).result.toOption.map (·.bounds) = some ["'a\nb'"] ∧
      (parse "p.pks" (bytesWithReturns boundSource)).result.toOption.map (·.bounds) =
        some ["'a\r\nb'"] := by
  refine ⟨⟨fun h => ?_, ?_, ?_⟩, by decide +kernel, by decide +kernel, by decide +kernel⟩
  · rw [toList_lineFeeds] at h
    exact absurd (List.eq_of_mem_replicate h) (by decide)
  · exact parse_lineFeeds (by decide) (Nat.le_refl _)
  · exact parse_bytesWithReturns_lineFeeds (by decide) (by decide)

end PackageDoc
