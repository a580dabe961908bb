/-
  Lines while a source is scanned.

  The scanner reports the lines that it passes, so between two calls its table
  knows the lines of what has been read and no others.  For an offset in there
  the table is exact (`LineTable.ExactAt`): the line is one more than the number
  of line feeds before the offset, and the column counts from the last of them.
  Every call keeps what ties the table to the source (`Scanner.InPlace`), be it
  one that gives a token or one that finds a fault.

  Main statement: `lines_exact`.
-/
import PackageDoc.Proofs.LineTable
import PackageDoc.Proofs.Text.Encoding
import PackageDoc.Proofs.Token.Scan

namespace PackageDoc

open Text

/-! ## Lines of a source -/

/-- The line of an offset into a source. -/
def lineAt (source : ByteArray) (pos : Nat) : Nat := 1 + (source.toList.take pos).count 10

/-- The line of the offset `pos` starts at `start`: behind the last line feed
    before `pos`, or where the source starts. -/
structure StartsLine (source : ByteArray) (pos start : Nat) : Prop where
  le : start ≤ pos
  behind : start = 0 ∨ source.toList[start - 1]? = some 10
  last : ∀ k, start ≤ k → k < pos → source.toList[k]? ≠ some 10

/-- The table gives the line and the column of an offset. -/
structure LineTable.ExactAt (lines : LineTable) (source : ByteArray) (pos : Nat) : Prop where
  line : lines.line pos = lineAt source pos
  position : ∀ file, ∃ start, StartsLine source pos start ∧
    lines.position file pos = ⟨file, pos, lineAt source pos, pos - start + 1⟩

/-! ## Lines and bytes -/

/-- Where lines start in bytes that stand at the offset `o`. -/
def byteStarts (o : Nat) : List UInt8 → List Nat
  | [] => []
  | b :: bs => (if b = 10 then [o + 1] else []) ++ byteStarts (o + 1) bs

theorem byteStarts_append (o : Nat) (bs cs : List UInt8) :
    byteStarts o (bs ++ cs) = byteStarts o bs ++ byteStarts (o + bs.length) cs := by
  induction bs generalizing o with
  | nil => simp [byteStarts]
  | cons b bs ih =>
    simp only [List.cons_append, byteStarts, ih, List.append_assoc, List.length_cons]
    rw [Nat.add_assoc, Nat.add_comm 1]

/-- A line starts behind every line feed, and nowhere else. -/
theorem mem_byteStarts {o s : Nat} {bs : List UInt8} :
    s ∈ byteStarts o bs ↔ ∃ k, bs[k]? = some 10 ∧ s = o + k + 1 := by
  induction bs generalizing o with
  | nil => simp [byteStarts]
  | cons b bs ih =>
    simp only [byteStarts, List.mem_append, ih]
    constructor
    · rintro (h | ⟨k, hk, rfl⟩)
      · split at h
        · rename_i hb
          exact ⟨0, by simp [hb], by simpa using h⟩
        · cases h
      · exact ⟨k + 1, by simpa using hk, by omega⟩
    · rintro ⟨k, hk, rfl⟩
      cases k with
      | zero =>
        have hb : b = 10 := by simpa using hk
        exact .inl (by simp [hb])
      | succ k => exact .inr ⟨k, by simpa using hk, by omega⟩

/-- The lines that start up to an offset are counted by the line feeds before
    it. -/
theorem countP_byteStarts (o p : Nat) (bs : List UInt8) :
    (byteStarts o bs).countP (· ≤ o + p) = (bs.take p).count 10 := by
  induction bs generalizing o p with
  | nil => simp [byteStarts]
  | cons b bs ih =>
    cases p with
    | zero =>
      rw [List.take_zero, List.count_nil, List.countP_eq_zero]
      intro s hs
      obtain ⟨k, -, rfl⟩ := mem_byteStarts.1 hs
      rw [decide_eq_true_iff]
      omega
    | succ p =>
      have hmore := ih (o + 1) p
      rw [show o + 1 + p = o + (p + 1) by omega] at hmore
      rw [byteStarts, List.countP_append, hmore, List.take_succ_cons, List.count_cons]
      by_cases hb : b = 10 <;> simp [hb, Nat.add_comm]

namespace LineTable

/-- The lines of a text start behind the line feeds in its bytes. -/
theorem startsFrom_eq (o : Nat) (cs : List Char) :
    startsFrom o cs = byteStarts o cs.utf8Encode.toList := by
  induction cs generalizing o with
  | nil => simp [startsFrom, toList_eq, byteStarts]
  | cons c cs ih =>
    have hchar : [c].utf8Encode.toList = String.utf8EncodeChar c := by
      simp [toList_eq, List.utf8Encode_singleton]
    have hfirst : byteStarts o (String.utf8EncodeChar c) =
        if c = '\n' then [o + c.utf8Size] else [] := by
      by_cases hc : c = '\n'
      · subst hc
        rfl
      · have hcount := count_utf8EncodeChar c
        rw [if_neg hc, List.count_eq_zero] at hcount
        rw [if_neg hc, List.eq_nil_iff_forall_not_mem]
        intro s hs
        obtain ⟨k, hk, -⟩ := mem_byteStarts.1 hs
        exact hcount (List.mem_of_getElem? hk)
    rw [List.utf8Encode_cons, toList_append, byteStarts_append, hchar, hfirst,
      String.length_utf8EncodeChar, startsFrom, ih]

theorem starts_addLines_empty (cs : List Char) :
    (empty.addLines 0 cs).starts.toList = 0 :: byteStarts 0 cs.utf8Encode.toList := by
  rw [starts_addLines empty cs (by simp [empty, last]), startsFrom_eq]
  rfl

/-- The line of an offset starts with the last entry that is not behind the
    offset. -/
theorem start_of_line (t : LineTable) (pos : Nat) :
    t.starts.getD (t.line pos - 1) 0 ∈ t.starts.toList ∧
      t.starts.getD (t.line pos - 1) 0 ≤ pos ∧
      ∀ s ∈ t.starts.toList, s ≤ pos → s ≤ t.starts.getD (t.line pos - 1) 0 := by
  have hpos := t.line_pos pos
  have hle := t.line_le_size pos
  have hlt : t.line pos - 1 < t.starts.toList.length := by
    rw [Array.length_toList]
    omega
  have hget : t.starts.getD (t.line pos - 1) 0 = t.starts.toList[t.line pos - 1] := by
    simp [Array.getD, show t.line pos - 1 < t.starts.size by simpa using hlt]
  rw [hget]
  refine ⟨List.getElem_mem hlt, ?_, fun s hs hspos => ?_⟩
  · rw [getElem_le_iff t.sorted pos hlt, ← line_eq_countP]
    omega
  · obtain ⟨k, hk, rfl⟩ := List.getElem_of_mem hs
    rw [getElem_le_iff t.sorted pos hk, ← line_eq_countP] at hspos
    rcases Nat.lt_or_ge k (t.line pos - 1) with hlast | hlast
    · exact Nat.le_of_lt (List.pairwise_iff_getElem.1 t.sorted k _ hk hlt hlast)
    · have hlast : k = t.line pos - 1 := by omega
      simp [hlast]

/-- **The table of what has been read is exact** for every offset in there, be it
    inside a character. -/
theorem exactAt_addLines (read back : List Char) {pos : Nat} (hpos : pos ≤ byteLength read) :
    (empty.addLines 0 read).ExactAt (read ++ back).utf8Encode pos := by
  have hsize : pos ≤ read.utf8Encode.toList.length := by
    rwa [length_toList, size_utf8Encode]
  have hbytes : (read ++ back).utf8Encode.toList =
      read.utf8Encode.toList ++ back.utf8Encode.toList := by
    rw [List.utf8Encode_append, toList_append]
  have hget : ∀ k, k < pos →
      (read ++ back).utf8Encode.toList[k]? = read.utf8Encode.toList[k]? := by
    intro k hk
    rw [hbytes, List.getElem?_append_left (by omega)]
  have hline : (empty.addLines 0 read).line pos = lineAt (read ++ back).utf8Encode pos := by
    have hcount := countP_byteStarts 0 pos read.utf8Encode.toList
    rw [Nat.zero_add] at hcount
    rw [line_eq_countP, starts_addLines_empty, lineAt, hbytes, List.take_append_of_le_length hsize,
      List.countP_cons_of_pos (by simp), hcount, Nat.add_comm]
  obtain ⟨hmem, hle, hlast⟩ := (empty.addLines 0 read).start_of_line pos
  refine ⟨hline, fun file => ⟨_, ⟨hle, ?_, ?_⟩, by rw [position, hline]⟩⟩
  · rw [starts_addLines_empty, List.mem_cons] at hmem
    refine hmem.imp_right fun hmem => ?_
    obtain ⟨k, hk, hstart⟩ := mem_byteStarts.1 hmem
    rw [hstart, hget _ (by omega)]
    simpa using hk
  · intro k hstart hk hfeed
    rw [hget k hk] at hfeed
    have hnext : k + 1 ∈ (empty.addLines 0 read).starts.toList := by
      rw [starts_addLines_empty]
      exact List.mem_cons_of_mem _ (mem_byteStarts.2 ⟨k, hfeed, by omega⟩)
    have hbehind := hlast (k + 1) hnext (by omega)
    omega

end LineTable

/-! ## The scanner -/

namespace Scanner

/-- What a scanner of a text has read is in front of what is left, and its table
    knows the lines in there. -/
def InPlace (text : List Char) (s : Scanner) : Prop :=
  ∃ read, text = read ++ s.rest ∧ s.offset = byteLength read ∧
    s.lines = LineTable.empty.addLines 0 read

/-- The scanner gives these tokens, one with each call, and comes to `next`. -/
inductive Yields (s : Scanner) : List Token → Scanner → Prop where
  | nil : Yields s [] s
  | snoc {mid next : Scanner} {ts : List Token} {t : Token} :
      Yields s ts mid → mid.scan = (.ok t, next) → Yields s (ts ++ [t]) next

variable {text : List Char} {s next : Scanner} {t : Token}

theorem inPlace_ofText (text : List Char) : (ofText text).InPlace text :=
  ⟨[], rfl, rfl, rfl⟩

theorem InPlace.move (h : s.InPlace text) {piece rest : List Char} (hs : piece ++ rest = s.rest) :
    (s.move piece rest).InPlace text := by
  obtain ⟨read, htext, hoffset, hlines⟩ := h
  refine ⟨read ++ piece, ?_, ?_, ?_⟩
  · rw [htext, ← hs, List.append_assoc]
    rfl
  · simp [Scanner.move, hoffset]
  · simp only [Scanner.move, hlines, hoffset]
    rw [LineTable.addLines_append, Nat.zero_add]

theorem InPlace.skipSpacing (h : s.InPlace text) : s.skipSpacing.InPlace text :=
  h.move List.takeWhile_append_dropWhile

/-- A call keeps a scanner in place, and what it tells of lies in what has then
    been read. -/
theorem InPlace.scan (h : s.InPlace text) : s.scan.2.InPlace text := by
  have hplace := h.skipSpacing
  have happend := reading_append s.skipSpacing.rest
  unfold Scanner.scan Scanner.read
  split
  · rename_i hread
    rw [hread] at happend
    exact hplace.move happend
  · rename_i hread
    rw [hread] at happend
    exact hplace.move happend

/-- The table of a scanner is exact up to where it is. -/
theorem InPlace.exactAt (h : s.InPlace text) {pos : Nat} (hpos : pos ≤ s.offset) :
    s.lines.ExactAt text.utf8Encode pos := by
  obtain ⟨read, htext, hoffset, hlines⟩ := h
  rw [hlines, htext]
  exact LineTable.exactAt_addLines read s.rest (hoffset ▸ hpos)

theorem stop_of_scan (h : s.scan = (.ok t, next)) : t.span.stop = next.offset := by
  unfold Scanner.scan Scanner.read at h
  split at h <;> cases h
  rfl

theorem pos_of_scan {e : ScanError} (h : s.scan = (.error e, next)) : e.pos ≤ next.offset := by
  unfold Scanner.scan Scanner.read at h
  split at h <;> cases h
  exact Nat.le_add_right _ _

theorem rest_of_scan (s : Scanner) : s.scan.2.rest <:+ s.rest := by
  have happend := reading_append s.skipSpacing.rest
  have hspacing : s.skipSpacing.rest <:+ s.rest := List.dropWhile_suffix _
  refine List.IsSuffix.trans ?_ hspacing
  unfold Scanner.scan Scanner.read
  split <;> rename_i hread <;> rw [hread] at happend <;> exact ⟨_, happend⟩

theorem rest_of_eof (h : s.scan = (.ok t, next)) (ht : t.kind = .eof) : next.rest = [] := by
  unfold Scanner.scan Scanner.read at h
  split at h <;> cases h
  rename_i hread
  obtain rfl : _ = TokenKind.eof := ht
  have hnil := eq_nil_of_reading_eof hread
  have happend := reading_append s.skipSpacing.rest
  rw [hread, hnil] at happend
  exact (List.append_eq_nil_iff.1 happend).2

namespace Yields

variable {ts : List Token}

theorem inPlace (h : (ofText text).Yields ts s) : s.InPlace text := by
  induction h with
  | nil => exact inPlace_ofText text
  | snoc hyields hscan ih =>
    have hplace := ih.scan
    rwa [hscan] at hplace

theorem stop_getLast (h : (ofText text).Yields ts s) :
    (ts.getLast?.map (·.span.stop)).getD 0 = s.offset := by
  cases h with
  | nil => rfl
  | snoc hyields hscan => simp [stop_of_scan hscan]

theorem rest_eq_nil {start : Scanner} (h : start.Yields ts s) (ht : ∃ t ∈ ts, t.kind = .eof) :
    s.rest = [] := by
  induction h with
  | nil => simp at ht
  | @snoc mid next ts u hyields hscan ih =>
    obtain ⟨t, hmem, hkind⟩ := ht
    rcases List.mem_append.1 hmem with hmem | hmem
    · have hrest := mid.rest_of_scan
      rw [hscan, ih ⟨t, hmem, hkind⟩] at hrest
      exact List.suffix_nil.1 hrest
    · obtain rfl := List.mem_singleton.1 hmem
      exact rest_of_eof hscan hkind

end Yields

end Scanner

/-- **The line table is exact at every moment of a scan.**  After any number of
    calls it is so up to the end of the last token, behind the end of the input for
    the whole source, and after a fault up to what is at fault. -/
theorem lines_exact {source : ByteArray} {text : List Char} (htext : decode source = .ok text)
    {ts : List Token} {s : Scanner} (h : (Scanner.ofText text).Yields ts s) :
    (∀ pos ≤ (ts.getLast?.map (·.span.stop)).getD 0, s.lines.ExactAt source pos) ∧
      ((∃ t ∈ ts, t.kind = .eof) → ∀ pos ≤ source.size, s.lines.ExactAt source pos) ∧
      ∀ e next, s.scan = (.error e, next) → ∀ pos ≤ e.pos, next.lines.ExactAt source pos := by
  have hplace := h.inPlace
  rw [decode_eq_ok_iff.1 htext]
  refine ⟨fun pos hpos => ?_, fun heof pos hpos => ?_, fun e next hscan pos hpos => ?_⟩
  · rw [h.stop_getLast] at hpos
    exact hplace.exactAt hpos
  · have ⟨read, hread, hoffset, _⟩ := hplace
    rw [h.rest_eq_nil heof, List.append_nil] at hread
    refine hplace.exactAt (hpos.trans ?_)
    rw [size_utf8Encode, hread, hoffset]
  · have hnext := hplace.scan
    rw [hscan] at hnext
    exact hnext.exactAt (hpos.trans (Scanner.pos_of_scan hscan))

/-- A text with line feeds in a string, between tokens and in a comment that is not
    closed. -/
def openCommentText : List Char := "é\n'\n'\n/*\n".toList

/-- After two tokens and the fault behind them. -/
theorem lines_exact_openComment :
    ∃ s next, (Scanner.ofText openCommentText).Yields
        [⟨.ident, "é", 0, 2⟩, ⟨.string, "\n", 3, 6⟩] s ∧
      s.scan = (.error ⟨.unterminatedComment, 7⟩, next) ∧
      (∀ pos ≤ 6, s.lines.ExactAt openCommentText.utf8Encode pos) ∧
      ∀ pos ≤ 7, next.lines.ExactAt openCommentText.utf8Encode pos := by
  have hyields : (Scanner.ofText openCommentText).Yields
      [⟨.ident, "é", 0, 2⟩, ⟨.string, "\n", 3, 6⟩] _ := .snoc (.snoc .nil rfl) rfl
  obtain ⟨htokens, -, hfault⟩ := lines_exact (decode_utf8Encode openCommentText) hyields
  exact ⟨_, _, hyields, rfl, htokens, hfault _ _ rfl⟩

end PackageDoc
