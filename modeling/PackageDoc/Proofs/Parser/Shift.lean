/-
  A text behind another.

  If a text ends with a token that nothing can prolong and a line feed follows
  it, then the tokens of what stands behind are those that it has by itself,
  moved by the bytes in front of it, and their comments are attached in the same
  way: `attachFrom_shift` is this for the parser's tokens, and `Likeness.ofShift`
  compares the two inputs.
-/
import PackageDoc.Proofs.Comment.Attribution
import PackageDoc.Proofs.LineTable
import PackageDoc.Proofs.Parser.Alike
import PackageDoc.Proofs.Parser.Returns
import PackageDoc.Proofs.Parser.Source

namespace PackageDoc

open Text

/-! ## Scanning -/

/-- The end of a scan, `n` bytes further on. -/
def shiftEnding (n : Nat) (ending : Except ScanError Token) : Except ScanError Token :=
  (ending.map (·.shift n)).mapError fun e => ⟨e.fault, e.pos + n⟩

namespace Scanner

theorem Stops.shift {o : Nat} {cs passed : List Char} {ending : Except ScanError Token}
    (h : Stops o cs ending passed) (n : Nat) : Stops (o + n) cs (shiftEnding n ending) passed := by
  cases h with
  | eof hgap =>
    have hstop := Stops.eof (o := o + n) hgap
    rwa [Nat.add_right_comm] at hstop
  | fault hgap hhead hread =>
    have hstop := Stops.fault (o := o + n) hgap hhead hread
    rwa [Nat.add_right_comm] at hstop

/-- Spacing in front of a text is passed over. -/
theorem scanRest_gap {gap cs : List Char} (hgap : Spacing gap) (o : Nat) (lines : LineTable) :
    (Scanner.mk (gap ++ cs) o lines).scanRest =
      (Scanner.mk cs (o + byteLength gap) (lines.addLines o gap)).scanRest := by
  have hscan : (Scanner.mk (gap ++ cs) o lines).scan =
      (Scanner.mk cs (o + byteLength gap) (lines.addLines o gap)).scan := by
    have htake : (gap ++ cs).takeWhile isSpacing = gap ++ cs.takeWhile isSpacing :=
      List.takeWhile_append_of_pos hgap
    have hdrop : (gap ++ cs).dropWhile isSpacing = cs.dropWhile isSpacing :=
      List.dropWhile_append_of_pos hgap
    simp only [scan, skipSpacing, move, htake, hdrop, byteLength_append,
      LineTable.addLines_append, Nat.add_assoc]
  generalize hnext : (Scanner.mk cs (o + byteLength gap) (lines.addLines o gap)).scan = found at hscan
  obtain ⟨e | t, next⟩ := found
  · rw [scanRest_error hscan, scanRest_error hnext]
  · by_cases ht : t.kind = .eof
    · rw [scanRest_eof hscan ht, scanRest_eof hnext ht]
    · rw [scanRest_token hscan ht, scanRest_token hnext ht]

end Scanner

/-- Scanning goes on in a text behind another and a line feed as in the text by
    itself. -/
theorem scanText_append {front used rest passed end_ : List Char} {ts us : List Token}
    {ending : Except ScanError Token} (hfront : Scans 0 front ts end_) (hend : Spacing end_)
    (hclosed : ∀ t ∈ ts.getLast?, t.Closed) (hscans : Scans 0 (used ++ rest) us rest)
    (hstops : Scanner.Stops (byteLength used) rest ending passed) :
    scanText (front ++ '\n' :: (used ++ rest)) =
      ⟨ts ++ us.map (·.shift (byteLength front + 1)), shiftEnding (byteLength front + 1) ending,
        LineTable.empty.addLines 0 (front ++ '\n' :: (used ++ passed))⟩ := by
  obtain ⟨before, rfl⟩ := hfront.suffix
  have hline : Spacing (end_ ++ ['\n']) := by
    intro c hc
    rcases List.mem_append.1 hc with hc | hc
    · exact hend c hc
    · rw [List.mem_singleton.1 hc]
      rfl
  have hscans' : Scans 0 (before ++ (end_ ++ '\n' :: (used ++ rest))) ts
      (end_ ++ '\n' :: (used ++ rest)) := by
    rw [← List.append_assoc]
    exact hfront.extend (.inr ⟨hclosed, by simp [isSeparator, isSpacing]⟩)
  have hshift := hscans.shift (byteLength (before ++ end_) + 1)
  have hstops' := hstops.shift (byteLength (before ++ end_) + 1)
  rw [Nat.zero_add] at hshift
  rw [Nat.add_comm] at hstops'
  have hoffset : byteLength before + byteLength (end_ ++ ['\n']) =
      byteLength (before ++ end_) + 1 := by
    simp [Nat.add_assoc, show '\n'.utf8Size = 1 from rfl]
  have hlines : LineTable.empty.addLines 0 (before ++ end_ ++ '\n' :: (used ++ passed)) =
      (((LineTable.empty.addLines 0 before).addLines (byteLength before) (end_ ++ ['\n'])).addLines
        (byteLength (before ++ end_) + 1) used).addLines
          (byteLength (before ++ end_) + 1 + byteLength used) passed := by
    have hsplit : before ++ end_ ++ '\n' :: (used ++ passed) =
        before ++ ((end_ ++ ['\n']) ++ (used ++ passed)) := by simp
    rw [hsplit, LineTable.addLines_append, LineTable.addLines_append, LineTable.addLines_append,
      Nat.zero_add, hoffset]
  have hgap : end_ ++ '\n' :: (used ++ rest) = (end_ ++ ['\n']) ++ (used ++ rest) := by simp
  rw [scanText, Scanner.ofText, List.append_assoc, Scanner.scanRest_scans hscans', Nat.zero_add,
    hgap, Scanner.scanRest_gap hline, hoffset, Scanner.scanRest_scans hshift,
    Scanner.scanRest_stops hstops', hlines]
  simp

/-! ## Comments -/

/-- Groups of comments that stand `n` bytes further on. -/
def CommentSlots.shift (n : Nat) (s : CommentSlots) : CommentSlots := s.map (·.shift n)

/-- A token of the parser that stands `n` bytes and `k` lines further on. -/
def DocToken.shift (n k : Nat) (d : DocToken) : DocToken :=
  ⟨d.token.shift n, d.line + k, d.skipped.map (·.shift n), d.slots.shift n⟩

/-! ## Tokens -/

section
variable {lines lines' : LineTable} {n k : Nat}

theorem ofToken_shift {t : Token} (h : lines'.line (t.pos + n) = lines.line t.pos + k) :
    PlacedComment.ofToken lines' (t.shift n) =
      (PlacedComment.ofToken lines t).move (·.shift n) k := by
  simp only [PlacedComment.ofToken, Token.pos_shift, Token.lexeme_shift, h, PlacedComment.move,
    Comment.shift, Nat.add_right_comm]

theorem docToken_shift {previous previous' : Option Nat} (hprev : Follows k previous previous')
    (skipped : List Token) (t : Token)
    (h : ∀ u, u = t ∨ u ∈ skipped → lines'.line (u.pos + n) = lines.line u.pos + k) :
    docToken lines' previous' (skipped.map (·.shift n)) (t.shift n) =
      (docToken lines previous skipped t).shift n k := by
  have hplaced : (skipped.map (·.shift n)).map (PlacedComment.ofToken lines') =
      (skipped.map (PlacedComment.ofToken lines)).map (·.move (·.shift n) k) := by
    rw [List.map_map, List.map_map]
    exact List.map_congr_left fun u hu => ofToken_shift (h u (.inr hu))
  have hslots := commentSlots_move (·.shift n) hprev (skipped.map (PlacedComment.ofToken lines))
    (by simp [PlacedComment.ofToken, LineTable.line_pos]) (lines.line t.pos) (t.kind = .eof)
  simp only [docToken, DocToken.shift, CommentSlots.shift, hplaced, Token.pos_shift,
    Token.kind_shift, h t (.inl rfl), ← hslots]
  rfl

/-- Comments are attached to tokens further on as they are attached here. -/
theorem attachFrom_shift {eof : Token} {previous previous' : Option Nat}
    (hprev : Follows k previous previous') {skipped ts : List Token}
    (h : ∀ u, u = eof ∨ u ∈ skipped ∨ u ∈ ts → lines'.line (u.pos + n) = lines.line u.pos + k) :
    attachFrom lines' (eof.shift n) previous' (skipped.map (·.shift n)) (ts.map (·.shift n)) =
      ((attachFrom lines eof previous skipped ts).1.map (·.shift n k),
        (attachFrom lines eof previous skipped ts).2.shift n k) := by
  induction ts generalizing previous previous' skipped with
  | nil =>
    simp only [List.map_nil, attachFrom, ← List.map_reverse]
    rw [docToken_shift hprev _ _ fun u hu => h u (by simpa using hu)]
  | cons t ts ih =>
    rw [List.map_cons, attachFrom, attachFrom, Token.kind_shift]
    by_cases hcomment : t.kind = .comment
    · rw [if_pos hcomment, if_pos hcomment]
      have hmore := @ih previous previous' hprev (t :: skipped) fun u hu => h u (by
        simp only [List.mem_cons] at hu ⊢
        grind)
      rwa [List.map_cons] at hmore
    · rw [if_neg hcomment, if_neg hcomment]
      have hd := docToken_shift hprev skipped.reverse t fun u hu => h u (by
        simp only [List.mem_reverse, List.mem_cons] at hu ⊢
        grind)
      have hmore := @ih (some (lines.line t.pos)) _ (.inl rfl) [] fun u hu => h u (by
        simp only [List.mem_cons, List.not_mem_nil] at hu ⊢
        grind)
      rw [List.map_reverse] at hd
      rw [hd]
      exact congrArg (fun p : List DocToken × DocToken =>
        ((docToken lines previous skipped.reverse t).shift n k :: p.1, p.2)) hmore

end

/-- Behind a token that is no comment, comments are attached anew. -/
theorem attachFrom_append (lines : LineTable) (eof : Token) (previous : Option Nat)
    (skipped : List Token) {ts : List Token} {t : Token} (ht : ts.getLast? = some t)
    (hcomment : t.kind ≠ .comment) (us : List Token) :
    attachFrom lines eof previous skipped (ts ++ us) =
      ((attachFrom lines eof previous skipped ts).1 ++
          (attachFrom lines eof (some (lines.line t.pos)) [] us).1,
        (attachFrom lines eof (some (lines.line t.pos)) [] us).2) := by
  induction ts generalizing previous skipped with
  | nil => cases ht
  | cons u ts ih =>
    cases ts with
    | nil =>
      obtain rfl : u = t := by simpa using ht
      simp [attachFrom, hcomment, docToken]
    | cons v ts =>
      rw [List.getLast?_cons_cons] at ht
      rw [List.cons_append, attachFrom, attachFrom]
      by_cases hu : u.kind = .comment
      · rw [if_pos hu, if_pos hu]
        exact ih _ _ ht
      · rw [if_neg hu, if_neg hu]
        simp only [ih _ _ ht]
        rfl

/-- Where comments are attached depends on the lines of the tokens only. -/
theorem attachFrom_congr {lines lines' : LineTable} (eof eof' : Token) (previous : Option Nat)
    (skipped ts : List Token)
    (h : ∀ u, u ∈ skipped ∨ u ∈ ts → lines'.line u.pos = lines.line u.pos) :
    (attachFrom lines' eof' previous skipped ts).1 =
      (attachFrom lines eof previous skipped ts).1 := by
  induction ts generalizing previous skipped with
  | nil => rfl
  | cons t ts ih =>
    rw [attachFrom, attachFrom]
    by_cases hcomment : t.kind = .comment
    · rw [if_pos hcomment, if_pos hcomment]
      refine ih previous (t :: skipped) fun u hu => h u ?_
      rcases hu with hu | hu
      · rcases List.mem_cons.1 hu with rfl | hu
        · exact .inr (by simp)
        · exact .inl hu
      · exact .inr (by simp [hu])
    · rw [if_neg hcomment, if_neg hcomment]
      have ht : lines'.line t.pos = lines.line t.pos := h t (.inr (by simp))
      have hplaced : skipped.reverse.map (PlacedComment.ofToken lines') =
          skipped.reverse.map (PlacedComment.ofToken lines) := by
        refine List.map_congr_left fun u hu => ?_
        simp only [PlacedComment.ofToken, h u (.inl (List.mem_reverse.1 hu))]
      have hd : docToken lines' previous skipped.reverse t =
          docToken lines previous skipped.reverse t := by
        simp only [docToken, hplaced, ht]
      have hmore := ih (some (lines.line t.pos)) [] fun u hu =>
        h u (.inr (List.mem_cons_of_mem t (by simpa using hu)))
      rw [hd]
      exact congrArg (docToken lines previous skipped.reverse t :: ·) hmore

/-! ## Inputs -/

/-- The token with which a scan ends, be it with a fault. -/
def lastToken : Except ScanError Token → Token
  | .ok t => t
  | .error e => ⟨.eof, "", e.pos, e.pos⟩

theorem lastToken_shiftEnding (n : Nat) (ending : Except ScanError Token) :
    lastToken (shiftEnding n ending) = (lastToken ending).shift n := by
  cases ending <;> rfl

theorem attached_ofText (file : String) (text : List Char) :
    ((Input.ofText file text).tokens, (Input.ofText file text).eof) =
      attachFrom (scanText text).lines (lastToken (scanText text).ending) none []
        (scanText text).tokens := by
  cases h : (scanText text).ending <;> simp only [Input.ofText, h, attachComments, lastToken]

/-- The offsets where the tokens of a scan start, and the one where it ends, lie
    in what was read. -/
theorem Scans.read_split {used rest passed : List Char} {ts : List Token}
    {ending : Except ScanError Token} (h : Scans 0 (used ++ rest) ts rest)
    (hstops : Scanner.Stops (byteLength used) rest ending passed) {u : Token}
    (hu : u = lastToken ending ∨ u ∈ ts) :
    ∃ read back, used ++ passed = read ++ back ∧ u.pos = byteLength read := by
  rcases hu with rfl | hu
  · cases hstops with
    | eof hgap =>
      exact ⟨used ++ rest, [], by simp, by simp [lastToken, Token.pos, Scanner.endToken]⟩
    | @fault gap cs piece rest fault hgap =>
      exact ⟨used ++ gap, piece, by simp, by simp [lastToken, Token.pos]⟩
  · obtain ⟨before, after, rfl⟩ := List.append_of_mem hu
    have hused : Scans 0 used _ [] := h.cut
    obtain ⟨front, back, rfl, hstart, -⟩ := hused.position
    exact ⟨front, back ++ passed, by simp, by simpa [Token.pos] using hstart⟩

/-- The lines of a text behind another and a line feed. -/
theorem line_behind (front read back : List Char) :
    (LineTable.empty.addLines 0 (front ++ '\n' :: (read ++ back))).line
        (byteLength read + (byteLength front + 1)) =
      (LineTable.empty.addLines 0 (read ++ back)).line (byteLength read) +
        (1 + newlines front) := by
  have hsplit : front ++ '\n' :: (read ++ back) = (front ++ '\n' :: read) ++ back := by simp
  have hlength : byteLength read + (byteLength front + 1) = byteLength (front ++ '\n' :: read) := by
    simp [show '\n'.utf8Size = 1 from rfl]
    omega
  rw [hsplit, hlength, LineTable.line_addLines, LineTable.line_addLines]
  simp only [newlines, List.count_append, List.count_cons_self]
  omega

/-- A text that is scanned to its end, whose last token is no comment and needs
    nothing behind it to end. -/
structure Complete (front : List Char) (ts : List Token) : Prop where
  scans : ∃ end_, Scans 0 front ts end_ ∧ Spacing end_
  closed : ∃ t, ts.getLast? = some t ∧ t.Closed

/-- An error `k` lines further on. -/
def ParseError.shift (k : Nat) (e : ParseError) : ParseError := { e with line := e.line + k }

/-- The input `i` is the input `j`, behind a text, the tokens `ds` of it, and a line
    feed. -/
structure Input.Behind (front : List Char) (ds : List DocToken) (i j : Input) : Prop where
  file : i.file = j.file
  text : i.text = front ++ '\n' :: j.text
  tokens : i.tokens = ds ++ j.tokens.map (·.shift (byteLength front + 1) (1 + newlines front))
  eof : i.eof = j.eof.shift (byteLength front + 1) (1 + newlines front)
  fault : (i.fault? = none ∧ j.fault? = none) ∨ ∃ e e', i.fault? = some e ∧ j.fault? = some e' ∧
    i.scanError e = (j.scanError e').shift (1 + newlines front)

theorem Input.Behind.fault_iff {front : List Char} {ds : List DocToken} {i j : Input}
    (h : i.Behind front ds j) : i.fault? = none ↔ j.fault? = none := by
  rcases h.fault with ⟨hi, hj⟩ | ⟨e, e', hi, hj, -⟩ <;> simp [hi, hj]

/-- The lines where the tokens of a text stand do not depend on what follows. -/
theorem Scans.line_append {front end_ : List Char} {ts : List Token} (h : Scans 0 front ts end_)
    {t : Token} (ht : t ∈ ts) (back : List Char) :
    (LineTable.empty.addLines 0 (front ++ back)).line t.pos =
      (LineTable.empty.addLines 0 front).line t.pos := by
  obtain ⟨before, after, rfl⟩ := List.append_of_mem ht
  obtain ⟨read, more, rfl, hpos, -⟩ := h.position
  rw [Nat.zero_add] at hpos
  rw [Token.pos, hpos, List.append_assoc, LineTable.line_addLines, LineTable.line_addLines]

theorem Complete.scanText {front : List Char} {ts : List Token} (h : Complete front ts) :
    scanText front =
      ⟨ts, .ok (Scanner.endToken (byteLength front)), LineTable.empty.addLines 0 front⟩ := by
  obtain ⟨end_, hscans, hend⟩ := h.scans
  obtain ⟨used, rfl⟩ := hscans.suffix
  rw [scanText_eq hscans (.eof hend), byteLength_append]

/-- A source of which the last token is a semicolon. -/
theorem complete_of_tokens? {source : ByteArray} {ts : List Token} (h : tokens? source = some ts)
    (hlast : ts.getLast?.map Token.kind = some (.op .semicolon)) :
    ∃ text, source = text.utf8Encode ∧ Complete text ts := by
  obtain ⟨text, hread, rfl, t, hend⟩ := tokens?_eq_some.1 h
  obtain ⟨used, rest, passed, hsplit, hscans, hstops⟩ := scans_of_scanText text
  obtain ⟨u, hu, hkind⟩ := Option.map_eq_some_iff.1 hlast
  refine ⟨text, (readSource_eq_ok_iff.1 hread).2, ⟨rest, hsplit ▸ hscans, ?_⟩, u, hu, ?_⟩
  · rw [hend] at hstops
    cases hstops
    assumption
  · exact ⟨by simp [hkind], by simp [hkind]⟩

theorem size_behind (front source : ByteArray) :
    (front ++ "\n".toUTF8 ++ source).size = front.size + 1 + source.size := by
  rw [ByteArray.size_append, ByteArray.size_append]
  rfl

theorem utf8Encode_behind (front text : List Char) :
    front.utf8Encode ++ "\n".toUTF8 ++ text.utf8Encode = (front ++ '\n' :: text).utf8Encode := by
  rw [show "\n".toUTF8 = ['\n'].utf8Encode from rfl, ← List.utf8Encode_append,
    ← List.utf8Encode_append, List.append_assoc]
  rfl

/-- **The input of a text behind another** holds the tokens of the one and then those
    of the other, further on. -/
theorem ofText_behind (file : String) {front : List Char} {ts : List Token}
    (h : Complete front ts) (text : List Char) :
    (Input.ofText file (front ++ '\n' :: text)).Behind front (Input.ofText file front).tokens
      (Input.ofText file text) := by
  have hfirst := h.scanText
  obtain ⟨end_, hfront, hend⟩ := h.scans
  obtain ⟨t, ht, hclosed⟩ := h.closed
  obtain ⟨used, rest, passed, rfl, hscans, hstops⟩ := scans_of_scanText text
  generalize (scanText (used ++ rest)).tokens = us at hscans
  generalize (scanText (used ++ rest)).ending = ending at hstops
  have hscan := scanText_eq hscans hstops
  have hscan' := scanText_append hfront hend (by simpa [ht] using hclosed) hscans hstops
  have hattach₀ := congrArg Prod.fst (attached_ofText file front)
  have hattach := attached_ofText file (used ++ rest)
  have hattach' := attached_ofText file (front ++ '\n' :: (used ++ rest))
  simp only [hfirst] at hattach₀
  simp only [hscan] at hattach
  simp only [hscan', attachFrom_append _ _ _ _ ht hclosed.1, lastToken_shiftEnding] at hattach'
  have hlines : ∀ u, u = lastToken ending ∨ u ∈ [] ∨ u ∈ us →
      (LineTable.empty.addLines 0 (front ++ '\n' :: (used ++ passed))).line
          (u.pos + (byteLength front + 1)) =
        (LineTable.empty.addLines 0 (used ++ passed)).line u.pos + (1 + newlines front) := by
    intro u hu
    obtain ⟨read, back, hread, hpos⟩ := hscans.read_split hstops (u := u) (by simpa using hu)
    rw [hread, hpos]
    exact line_behind front read back
  have hprevious : Follows (1 + newlines front) none
      (some ((LineTable.empty.addLines 0 (front ++ '\n' :: (used ++ passed))).line t.pos)) := by
    obtain ⟨before, rfl⟩ := List.getLast?_eq_some_iff.1 ht
    obtain ⟨read, back, rfl, hpos, -⟩ := hfront.position
    rw [Nat.zero_add] at hpos
    refine .inr ⟨rfl, _, ?_, rfl⟩
    rw [Token.pos, hpos, List.append_assoc, LineTable.line_addLines, newlines, newlines,
      List.count_append]
    omega
  have hshift := attachFrom_shift hprevious hlines
  have hdocs := attachFrom_congr (Scanner.endToken (byteLength front))
    ((lastToken ending).shift (byteLength front + 1)) none [] ts fun u hu =>
      hfront.line_append (by simpa using hu) ('\n' :: (used ++ passed))
  rw [List.map_nil, ← hattach] at hshift
  rw [hshift, hdocs] at hattach'
  refine ⟨rfl, rfl, ?_, congrArg Prod.snd hattach', ?_⟩
  · rw [hattach₀]
    exact congrArg Prod.fst hattach'
  · cases ending with
    | ok u => exact .inl (by simp [Input.ofText, hscan, hscan', shiftEnding, Except.map, Except.mapError])
    | error e =>
      refine .inr ⟨⟨e.fault, e.pos + (byteLength front + 1)⟩, e, ?_⟩
      have hline := hlines ⟨.eof, "", e.pos, e.pos⟩ (.inl rfl)
      simp only [Token.pos] at hline
      simp [Input.ofText, hscan, hscan', shiftEnding, Except.map, Except.mapError, Input.scanError,
        Input.errorAt, ParseError.shift, hline]

/-- The parser's tokens of a text behind another are those of the text by itself,
    further on. -/
theorem ofText_append (file : String) {front : List Char} {ts : List Token}
    (h : Complete front ts) (text : List Char) :
    ∃ ds, plainTokens ds = ts.filter (·.kind ≠ .comment) ∧
      (Input.ofText file (front ++ '\n' :: text)).tokens =
        ds ++ (Input.ofText file text).tokens.map
          (·.shift (byteLength front + 1) (1 + newlines front)) ∧
      (Input.ofText file (front ++ '\n' :: text)).eof =
        (Input.ofText file text).eof.shift (byteLength front + 1) (1 + newlines front) ∧
      ((Input.ofText file (front ++ '\n' :: text)).fault? = none ↔
        (Input.ofText file text).fault? = none) := by
  have hbehind := ofText_behind file h text
  refine ⟨_, ?_, hbehind.tokens, hbehind.eof, hbehind.fault_iff⟩
  rw [Input.plainTokens_ofText, h.scanText]

/-! ## Comparing the inputs -/

namespace Likeness

variable {i j : Input} {n k : Nat}

/-- Inputs of which the first is the second, `n` bytes and `k` lines further on. -/
def shiftComparison (n k : Nat) : Comparison where
  left := .same
  right := .shift n
  error e e' := e = e'.shift k

theorem shiftComparison_token (hfile : i.file = j.file) {u : DocToken} (hu : 0 < u.span.stop) :
    (shiftComparison n k).Token i j (u.shift n k) u where
  kind := rfl
  word _ := rfl
  text := rfl
  start := rfl
  stop := rfl
  inner := by
    show u.span.stop + n - 1 = u.span.stop - 1 + n
    omega
  lead := rfl
  field := by
    simp only [DocToken.fieldDoc, DocToken.shift, CommentSlots.shift, CommentSlots.map,
      CommentGroup.shift, shiftComparison, Recast.same, Recast.shift, id_eq, Option.map_or]
  fails fault := by
    show i.errorAt (u.line + k) fault = (j.errorAt u.line fault).shift k
    rw [Input.errorAt, Input.errorAt, hfile]
    rfl

/-- A text behind another and the text by itself. -/
def ofShift {front : List Char} {ds : List DocToken} (h : i.Behind front ds j)
    (hpos : 0 < j.eof.span.stop) : Likeness i j where
  toComparison := shiftComparison (byteLength front + 1) (1 + newlines front)
  left_max _ _ := rfl
  right_max m p := by
    simp only [shiftComparison, Recast.shift]
    omega
  succ {m p} h := by
    simp only [shiftComparison, Recast.same, Recast.shift, id_eq] at h ⊢
    omega
  text_eq := rfl
  text_append _ _ := rfl
  eof := h.eof ▸ shiftComparison_token h.file hpos
  fault := h.fault
  query {ts us ts' us'} hts hts' _ _ := by
    have hend : (shiftComparison (byteLength front + 1) (1 + newlines front)).Token i j i.eof j.eof :=
      h.eof ▸ shiftComparison_token h.file hpos
    have hstart := (hts.current hend).start
    have hstop := (hts'.current hend).start
    have hlength : byteLength (front ++ ['\n']) = byteLength front + 1 := by
      simp [show '\n'.utf8Size = 1 from rfl]
    have hsplit : i.text = (front ++ ['\n']) ++ j.text := by simp [h.text]
    simp only [shiftComparison, Recast.same, Recast.shift, id_eq] at hstart hstop ⊢
    rw [hstart, hstop, hsplit, Nat.add_comm _ (byteLength front + 1),
      Nat.add_comm _ (byteLength front + 1), ← hlength, slice_append_add]

theorem forall₂_shift (hfile : i.file = j.file) {us : List DocToken}
    (h : ∀ u ∈ us, 0 < u.span.stop) :
    List.Forall₂ ((shiftComparison n k).Token i j) (us.map (·.shift n k)) us := by
  induction us with
  | nil => exact .nil
  | cons u us ih =>
    exact .cons (shiftComparison_token hfile (h u (by simp))) (ih fun v hv => h v (by simp [hv]))

end Likeness

/-- The end of an input that holds a token does not lie at its start. -/
theorem eof_stop_pos {file : String} {text : List Char} (h : (Input.ofText file text).tokens ≠ []) :
    0 < (Input.ofText file text).eof.span.stop := by
  obtain ⟨used, rest, passed, htext, hscans, hstops⟩ := scans_of_scanText text
  have hne : (scanText text).tokens ≠ [] := by
    intro hnil
    have hattach := congrArg Prod.fst (attached_ofText file text)
    rw [hnil] at hattach
    exact h hattach
  have hused := byteLength_pos (hscans.ne_nil hne)
  have heof : (Input.ofText file text).eof.token = lastToken (scanText text).ending := by
    have hattach := congrArg (·.2.token) (attached_ofText file text)
    exact hattach.trans (token_attachFrom _ _ _ _ _)
  have hstop : byteLength used ≤ (lastToken (scanText text).ending).span.stop := by
    generalize (scanText text).ending = ending at hstops
    cases hstops <;> simp [lastToken, Scanner.endToken]
  rw [DocToken.span, heof]
  omega

/-- **The packages of a text behind another** are those of the text by itself,
    moved by the bytes in front, and so is an error by the lines in front. -/
theorem outcome_packages_behind (file : String) {front : List Char} {ts : List Token}
    (h : Complete front ts) (text : List Char) :
    (Parser.packages.outcome (Input.ofText file (front ++ '\n' :: text))
        ((Input.ofText file text).tokens.map
          (·.shift (byteLength front + 1) (1 + newlines front)))).map Prod.fst =
      ((Parser.packages.outcome (Input.ofText file text) (Input.ofText file text).tokens).map
          fun x => x.1.map (·.recast (.shift (byteLength front + 1)))).mapError
        (·.shift (1 + newlines front)) := by
  have hbehind := ofText_behind file h text
  by_cases hnil : (Input.ofText file text).tokens = []
  · rw [hnil, List.map_nil, Parser.outcome_packages_nil, Parser.outcome_packages_nil]
    rfl
  · have hj := Input.scanned_ofText file text
    have halike := (Likeness.ofShift hbehind (eof_stop_pos hnil)).packages _ _
      ⟨⟨_, hbehind.tokens.symm⟩, List.suffix_refl _,
        Likeness.forall₂_shift hbehind.file fun u hu => hj.stop_pos hu⟩
    generalize Parser.packages.outcome (Input.ofText file text) _ = out at halike ⊢
    generalize Parser.packages.outcome (Input.ofText file (front ++ '\n' :: text)) _ = out'
      at halike ⊢
    cases halike with
    | ok hpq _ =>
      simp only [Likeness.Same, Likeness.ofShift, Likeness.shiftComparison] at hpq
      rw [List.map_id'' Package.recast_same] at hpq
      exact congrArg Except.ok hpq
    | error he => exact congrArg Except.error he

theorem packages_behind {file : String} {front text : List Char} {ts : List Token} {f : SourceFile}
    (h : Complete front ts) (hf : (Input.ofText file text).parse.result = .ok f) :
    ∃ rest, Parser.packages.Returns (Input.ofText file (front ++ '\n' :: text))
      ((Input.ofText file text).tokens.map (·.shift (byteLength front + 1) (1 + newlines front)))
      (f.packages.map (·.recast (.shift (byteLength front + 1)))) rest := by
  obtain ⟨-, -, rest, hreturns⟩ := Input.parse_eq_ok.1 hf
  have hbehind := outcome_packages_behind file h text
  rw [hreturns] at hbehind
  cases hout : Parser.packages.outcome (Input.ofText file (front ++ '\n' :: text)) _ with
  | error e =>
    rw [hout] at hbehind
    cases hbehind
  | ok x =>
    rw [hout] at hbehind
    have hps : x.1 = f.packages.map (·.recast (.shift (byteLength front + 1))) :=
      Except.ok.inj hbehind
    exact ⟨x.2, hps ▸ hout⟩

end PackageDoc
