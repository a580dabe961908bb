/-
  Scanning as a relation.

  `Scans o cs ts rest` says that a scan that starts at the text `cs`, which stands
  at the offset `o`, passes over the tokens `ts` and comes to `rest`.

  * `scanText_eq` and `scans_of_scanText`: the tokens of a text are those that a
    scan passes over on its way to the end;
  * `Scans.cut`, `Scans.extend`: a scan does not depend on what follows the text,
    as long as the last token ends there;
  * `Scans.shift`, `Scans.unshift`: the offset where a text stands only moves the
    spans of its tokens.
-/
import PackageDoc.Proofs.Text.Encoding
import PackageDoc.Proofs.Token.Reading

namespace PackageDoc

open Text

/-! ## Lines -/

namespace LineTable

@[simp] theorem addLines_nil (t : LineTable) (o : Nat) : t.addLines o [] = t := rfl

theorem addLines_append (t : LineTable) (o : Nat) (cs ds : List Char) :
    t.addLines o (cs ++ ds) = (t.addLines o cs).addLines (o + byteLength cs) ds := by
  induction cs generalizing t o with
  | nil => rfl
  | cons c cs ih => simp only [List.cons_append, addLines, ih, byteLength_cons, Nat.add_assoc]

end LineTable

/-! ## The relation -/

/-- Whether a text holds nothing but spacing. -/
def Spacing (cs : List Char) : Prop := ∀ c ∈ cs, isSpacing c = true

/-- The token that is read from `piece` at the offset `o`. -/
def Token.ofPiece (kind : TokenKind) (lexeme piece : List Char) (o : Nat) : Token :=
  ⟨kind, String.ofList lexeme, o, o + byteLength piece⟩

/-- A scan of `cs`, which stands at `o`, passes over the tokens and comes to
    `rest`. -/
inductive Scans : Nat → List Char → List Token → List Char → Prop where
  | nil {o : Nat} {cs : List Char} : Scans o cs [] cs
  | cons {o : Nat} {gap lexeme piece mid rest : List Char} {kind : TokenKind} {ts : List Token} :
      Spacing gap → Reads kind lexeme piece mid →
      Scans (o + byteLength gap + byteLength piece) mid ts rest →
      Scans o (gap ++ piece ++ mid)
        (.ofPiece kind lexeme piece (o + byteLength gap) :: ts) rest

namespace Scans

variable {o : Nat} {cs ds mid rest : List Char} {ts us : List Token}

theorem suffix (h : Scans o cs ts rest) : ∃ used, cs = used ++ rest := by
  induction h with
  | nil => exact ⟨[], rfl⟩
  | @cons o gap lexeme piece mid _ kind ts _ _ _ ih =>
    obtain ⟨used, rfl⟩ := ih
    exact ⟨gap ++ piece ++ used, by simp⟩

theorem append {used : List Char} (h : Scans o (used ++ mid) ts mid)
    (h' : Scans (o + byteLength used) mid us rest) : Scans o (used ++ mid) (ts ++ us) rest := by
  generalize hcs : used ++ mid = cs at h
  induction h generalizing used with
  | nil =>
    have : used = [] := by simpa using hcs
    simpa [this] using h'
  | @cons o gap lexeme piece mid' _ kind ts hg hr hs ih =>
    obtain ⟨used', rfl⟩ := hs.suffix
    have hused : used = gap ++ piece ++ used' := by
      rw [← List.append_assoc] at hcs
      exact List.append_cancel_right hcs
    refine .cons hg hr (ih ?_ rfl)
    simpa [hused, Nat.add_assoc] using h'

theorem of_append {ts us : List Token} (h : Scans o cs (ts ++ us) rest) :
    ∃ used mid, cs = used ++ mid ∧ Scans o cs ts mid ∧ Scans (o + byteLength used) mid us rest := by
  induction ts generalizing o cs with
  | nil => exact ⟨[], cs, rfl, .nil, h⟩
  | cons t ts ih =>
    cases h with
    | @cons _ gap lexeme piece mid' _ kind _ hg hr hs =>
      obtain ⟨used, mid, rfl, h₁, h₂⟩ := ih hs
      refine ⟨gap ++ piece ++ used, mid, by simp, .cons hg hr h₁, ?_⟩
      simpa [Nat.add_assoc] using h₂

end Scans

/-- The kind and the lexeme of a token. -/
def Token.word (t : Token) : TokenKind × String := (t.kind, t.lexeme)

/-! ## Texts in other places -/

/-- A token that stands `n` bytes further on. -/
def Token.shift (n : Nat) (t : Token) : Token :=
  { t with span := ⟨t.span.start + n, t.span.stop + n⟩ }

@[simp]
theorem Token.pos_shift (n : Nat) (t : Token) : (t.shift n).pos = t.pos + n := rfl

@[simp]
theorem Token.kind_shift (n : Nat) (t : Token) : (t.shift n).kind = t.kind := rfl

@[simp]
theorem Token.lexeme_shift (n : Nat) (t : Token) : (t.shift n).lexeme = t.lexeme := rfl

theorem Token.shift_ofPiece (kind : TokenKind) (lexeme piece : List Char) (o n : Nat) :
    (Token.ofPiece kind lexeme piece o).shift n = .ofPiece kind lexeme piece (o + n) := by
  simp only [Token.ofPiece, Token.shift, Nat.add_right_comm]

/-- Whether a token needs nothing behind it to end: it is no comment, and if it
    is a string, then it is closed. -/
def Token.Closed (t : Token) : Prop :=
  t.kind ≠ .comment ∧
    (t.kind = .string → t.span.stop = t.span.start + byteLength t.lexeme.toList + 2)

/-- What follows a closed token behind a separator does not prolong it. -/
theorem Reads.of_closed {kind : TokenKind} {lexeme piece : List Char} {o : Nat} {more : List Char}
    (h : Reads kind lexeme piece []) (hc : (Token.ofPiece kind lexeme piece o).Closed)
    (hmore : ∀ c ∈ more.head?, isSeparator c = true) : Reads kind lexeme piece more := by
  cases more with
  | nil => exact h
  | cons c more =>
    refine h.separated hc.1 (fun hk => ?_) (hmore c (by simp)) more
    have hlen := hc.2 hk
    cases h with
    | word => exact absurd hk (by unfold wordKind; split <;> simp)
    | string => rfl
    | openString =>
      simp only [Token.ofPiece, String.toList_ofList, byteLength_cons] at hlen
      have : '\''.utf8Size = 1 := rfl
      omega
    | _ => cases hk

namespace Scans

variable {o : Nat} {cs ds mid rest : List Char} {ts us : List Token}

theorem eq_of_nil (h : Scans o cs [] rest) : cs = rest := by
  cases h
  rfl

theorem of_nil (h : Scans o [] ts rest) : ts = [] ∧ rest = [] := by
  generalize hcs : ([] : List Char) = cs at h
  cases h with
  | nil => exact ⟨rfl, rfl⟩
  | cons hg hr hs =>
    have := hr.piece_ne_nil
    simp at hcs
    exact absurd hcs.2.1 this

/-- The tokens of a text are found again where it is cut behind them. -/
theorem cut {back : List Char} (h : Scans o (cs ++ back) ts (rest ++ back)) :
    Scans o cs ts rest := by
  generalize hcs : cs ++ back = ds, hrest : rest ++ back = es at h
  induction h generalizing cs with
  | nil =>
    obtain rfl : cs = rest := List.append_cancel_right (hcs.trans hrest.symm)
    exact .nil
  | @cons o gap lexeme piece mid es kind ts hg hr hs ih =>
    obtain ⟨used, rfl⟩ := hs.suffix
    have hsplit : cs = gap ++ piece ++ (used ++ rest) := by
      rw [← hrest, ← List.append_assoc, ← List.append_assoc] at hcs
      simpa using List.append_cancel_right hcs
    subst hsplit hrest
    refine .cons hg ?_ (ih (by simp) rfl)
    cases hmid : used ++ rest with
    | nil => exact hr.cut
    | cons c mid =>
      rw [← List.append_assoc, hmid] at hr
      exact hr.lookahead mid

/-- The tokens of a text are found again where it goes on: behind the rest, or
    behind a separator if there is none. -/
theorem extend (h : Scans o cs ts rest) {more : List Char}
    (hend : rest ≠ [] ∨ (∀ t ∈ ts.getLast?, t.Closed) ∧ ∀ c ∈ more.head?, isSeparator c = true) :
    Scans o (cs ++ more) ts (rest ++ more) := by
  induction h with
  | nil => exact .nil
  | @cons o gap lexeme piece mid rest kind ts hg hr hs ih =>
    rw [List.append_assoc]
    cases mid with
    | nil =>
      obtain ⟨rfl, rfl⟩ := hs.of_nil
      obtain ⟨hclosed, hmore⟩ := hend.resolve_left (by simp)
      exact .cons hg (hr.of_closed (hclosed _ rfl) hmore) .nil
    | cons c mid =>
      refine .cons hg (hr.lookahead _) (ih (hend.imp_right fun ⟨hclosed, hmore⟩ => ⟨?_, hmore⟩))
      intro t ht
      cases ts with
      | nil => cases ht
      | cons u us => exact hclosed t (by simpa [List.getLast?_cons_cons] using ht)

/-- The offset of a text only moves the spans of its tokens. -/
theorem shift (h : Scans o cs ts rest) (n : Nat) : Scans (o + n) cs (ts.map (·.shift n)) rest := by
  induction h with
  | nil => exact .nil
  | @cons o gap lexeme piece mid rest kind ts hg hr hs ih =>
    rw [List.map_cons, Token.shift_ofPiece, Nat.add_right_comm]
    refine .cons hg hr ?_
    rwa [Nat.add_right_comm o n, Nat.add_right_comm _ n]

/-- The tokens of a text are those of the text by itself, moved to its place. -/
theorem unshift {n : Nat} (h : Scans (o + n) cs ts rest) :
    ∃ us, ts = us.map (·.shift n) ∧ Scans o cs us rest := by
  generalize ho : o + n = m at h
  induction h generalizing o with
  | nil => exact ⟨[], rfl, .nil⟩
  | @cons m gap lexeme piece mid rest kind ts hg hr hs ih =>
    obtain ⟨us, rfl, hus⟩ := ih (o := o + byteLength gap + byteLength piece) (by omega)
    refine ⟨.ofPiece kind lexeme piece (o + byteLength gap) :: us, ?_, .cons hg hr hus⟩
    rw [List.map_cons, Token.shift_ofPiece, ← ho, Nat.add_right_comm]

/-- The spacing in front of the first token. -/
theorem trim {t : Token} (h : Scans o cs (t :: ts) rest) :
    ∃ gap ds, cs = gap ++ ds ∧ Spacing gap ∧ t.span.start = o + byteLength gap ∧
      Scans (o + byteLength gap) ds (t :: ts) rest := by
  cases h with
  | @cons _ gap lexeme piece mid _ kind _ hg hr hs =>
    refine ⟨gap, piece ++ mid, by simp, hg, rfl, ?_⟩
    have hnil : Spacing [] := by simp [Spacing]
    simpa using Scans.cons hnil hr hs

theorem ne_nil {used : List Char} (h : Scans o (used ++ rest) ts rest) (hts : ts ≠ []) :
    used ≠ [] := by
  rintro rfl
  generalize hcs : [] ++ rest = cs at h
  cases h with
  | nil => exact hts rfl
  | @cons _ gap lexeme piece mid _ kind ts hg hr hs =>
    obtain ⟨used, rfl⟩ := hs.suffix
    have hlength := congrArg List.length hcs
    have hpiece := List.length_pos_iff.2 hr.piece_ne_nil
    simp at hlength
    omega

/-- A token stands in the text where its span starts. -/
theorem position {before after : List Token} {t : Token}
    (h : Scans o cs (before ++ t :: after) rest) :
    ∃ front back, cs = front ++ back ∧ t.span.start = o + byteLength front ∧
      (before ≠ [] → front ≠ []) ∧ Scans (o + byteLength front) back (t :: after) rest := by
  obtain ⟨used, mid, rfl, hbefore, hmid⟩ := h.of_append
  obtain ⟨gap, ds, rfl, -, hstart, hscan⟩ := hmid.trim
  refine ⟨used ++ gap, ds, by simp, by simpa [Nat.add_assoc] using hstart, ?_, ?_⟩
  · intro hne hnil
    exact hbefore.ne_nil hne (List.append_eq_nil_iff.1 hnil).1
  · simpa [Nat.add_assoc] using hscan

/-- The last token ends where the scan stops. -/
theorem getLast_stop {used : List Char} {t : Token} (h : Scans o (used ++ rest) ts rest)
    (ht : ts.getLast? = some t) : t.span.stop = o + byteLength used := by
  generalize hcs : used ++ rest = cs at h
  induction h generalizing used with
  | nil => cases ht
  | @cons o gap lexeme piece mid rest kind ts hg hr hs ih =>
    obtain ⟨used', rfl⟩ := hs.suffix
    have hused : used = gap ++ piece ++ used' := by
      rw [← List.append_assoc] at hcs
      exact List.append_cancel_right hcs
    subst hused
    cases ts with
    | nil =>
      cases ht
      have : used' = [] := by simpa using hs.eq_of_nil
      simp [this, Token.ofPiece, Nat.add_assoc]
    | cons u us =>
      rw [List.getLast?_cons_cons] at ht
      rw [ih ht rfl]
      simp [Nat.add_assoc]

/-- **The source of some tokens**: a text that is scanned holds, from the start
    of the first of them to the end of the last, a text with just these
    tokens. -/
theorem segment {before after : List Token} {t u : Token}
    (h : Scans o cs (before ++ ts ++ after) rest) (ht : ts.head? = some t)
    (hu : ts.getLast? = some u) :
    ∃ front body back, cs = front ++ body ++ back ∧ t.span.start = o + byteLength front ∧
      u.span.stop = o + byteLength front + byteLength body ∧
      Scans (o + byteLength front) body ts [] := by
  rw [List.append_assoc] at h
  obtain ⟨used, mid, rfl, -, hmid⟩ := h.of_append
  obtain ⟨used', back, rfl, hts, -⟩ := hmid.of_append
  obtain ⟨ts', rfl⟩ := List.head?_eq_some_iff.1 ht
  obtain ⟨gap, ds, hds, -, hstart, hscan⟩ := hts.trim
  obtain ⟨body, rfl⟩ := hscan.suffix
  have hbody : Scans _ body _ [] := hscan.cut
  refine ⟨used ++ gap, body, back, ?_, ?_, ?_, ?_⟩
  · rw [hds]
    simp
  · simpa [Nat.add_assoc] using hstart
  · simpa [Nat.add_assoc] using hscan.getLast_stop hu
  · simpa [Nat.add_assoc] using hbody

/-- The spacing in front of a token is all of the spacing there. -/
theorem split_spacing {gap gap' : List Char} (hgap : Spacing gap)
    (hds : ∀ c ∈ ds.head?, isSpacing c = false) (h : gap ++ cs = gap' ++ ds) :
    ∃ more, gap' = gap ++ more ∧ cs = more ++ ds := by
  rcases List.append_eq_append_iff.1 h with ⟨more, hmore, hcs⟩ | ⟨more, rfl, rfl⟩
  · exact ⟨more, hmore, hcs⟩
  · cases more with
    | nil => exact ⟨[], by simp, rfl⟩
    | cons c more =>
      have hc := hgap c (by simp)
      rw [hds c (by simp)] at hc
      cases hc

/-- A scan may start behind the spacing in front of a text. -/
theorem unindent {gap : List Char} (hgap : Spacing gap) (h : Scans o (gap ++ cs) ts rest)
    (hrest : Spacing rest) : ∃ rest', Spacing rest' ∧ Scans (o + byteLength gap) cs ts rest' := by
  generalize hds : gap ++ cs = ds at h
  cases h with
  | nil =>
    subst hds
    exact ⟨cs, fun c hc => hrest c (by simp [hc]), .nil⟩
  | @cons _ gap' lexeme piece mid _ kind ts hgap' hread hscans =>
    rw [List.append_assoc] at hds
    have hhead : ∀ c ∈ (piece ++ mid).head?, isSpacing c = false := by
      rw [List.head?_append_of_ne_nil _ hread.piece_ne_nil]
      exact hread.head_not_spacing
    obtain ⟨more, rfl, rfl⟩ := split_spacing hgap hhead hds
    refine ⟨rest, hrest, ?_⟩
    have hmore : Spacing more := fun c hc => hgap' c (by simp [hc])
    have hscans' := Scans.cons (o := o + byteLength gap) hmore hread
      (by simpa [Nat.add_assoc] using hscans)
    simpa [Nat.add_assoc] using hscans'

/-- Two scans of a text pass over the same tokens, as far as both go. -/
theorem deterministic (h : Scans o cs ts mid) (h' : Scans o cs us rest) (hrest : Spacing rest) :
    ∃ used vs, cs = used ++ mid ∧ us = ts ++ vs ∧ Scans (o + byteLength used) mid vs rest := by
  induction h generalizing us with
  | nil => exact ⟨[], us, rfl, rfl, h'⟩
  | @cons o gap lexeme piece mid' mid kind ts hgap hread hscans ih =>
    have hhead : ∀ c ∈ (piece ++ mid').head?, isSpacing c = false := by
      rw [List.head?_append_of_ne_nil _ hread.piece_ne_nil]
      exact hread.head_not_spacing
    generalize hds : gap ++ piece ++ mid' = ds at h'
    cases h' with
    | nil =>
      obtain ⟨c, piece, rfl⟩ := List.exists_cons_of_ne_nil hread.piece_ne_nil
      have hc := hrest c (by simp [← hds])
      rw [hhead c (by simp)] at hc
      cases hc
    | @cons _ gap' lexeme' piece' mid'' _ kind' us hgap' hread' hscans' =>
      have hhead' : ∀ c ∈ (piece' ++ mid'').head?, isSpacing c = false := by
        rw [List.head?_append_of_ne_nil _ hread'.piece_ne_nil]
        exact hread'.head_not_spacing
      rw [List.append_assoc, List.append_assoc] at hds
      obtain ⟨more, rfl, hmore⟩ := split_spacing hgap hhead' hds
      cases more with
      | cons c more =>
        have hc := hgap' c (by simp)
        rw [hhead c (by simp [hmore])] at hc
        cases hc
      | nil =>
        -- the text behind the spacing is the same, and so is what is read from it
        have hsame := hread.reading
        rw [hmore, List.nil_append, hread'.reading] at hsame
        cases hsame
        rw [List.append_nil] at hscans' ⊢
        obtain ⟨used, vs, rfl, rfl, hvs⟩ := ih hscans'
        exact ⟨gap ++ piece ++ used, vs, by simp, rfl, by simpa [Nat.add_assoc] using hvs⟩

/-- Every token was read from a piece of the text. -/
theorem reads_of_mem (h : Scans o cs ts rest) {t : Token} (ht : t ∈ ts) :
    ∃ m lexeme piece mid, o ≤ m ∧ Reads t.kind lexeme piece mid ∧
      t = .ofPiece t.kind lexeme piece m := by
  induction h with
  | nil => cases ht
  | @cons o gap lexeme piece mid rest kind ts hg hr hs ih =>
    rcases List.mem_cons.1 ht with rfl | ht
    · exact ⟨o + byteLength gap, lexeme, piece, mid, by omega, hr, rfl⟩
    · obtain ⟨m, lexeme', piece', mid', hm, hread⟩ := ih ht
      exact ⟨m, lexeme', piece', mid', by omega, hread⟩

theorem le_start (h : Scans o cs ts rest) {t : Token} (ht : t ∈ ts) : o ≤ t.span.start := by
  obtain ⟨m, lexeme, piece, mid, hm, -, heq⟩ := h.reads_of_mem ht
  rw [heq]
  exact hm

theorem start_lt_stop (h : Scans o cs ts rest) {t : Token} (ht : t ∈ ts) :
    t.span.start < t.span.stop := by
  obtain ⟨m, lexeme, piece, mid, -, hread, heq⟩ := h.reads_of_mem ht
  have hpos := byteLength_pos hread.piece_ne_nil
  rw [heq]
  simp only [Token.ofPiece]
  omega

theorem ordered (h : Scans o cs ts rest) :
    ts.Pairwise fun t u => t.span.stop ≤ u.span.start := by
  induction h with
  | nil => exact .nil
  | @cons o gap lexeme piece mid rest kind ts hg hr hs ih =>
    refine .cons (fun u hu => ?_) ih
    exact hs.le_start hu

/-- An operator takes as much of the text as its spelling. -/
theorem spelling_of_mem (h : Scans o cs ts rest) {t : Token} (ht : t ∈ ts) {op : Operator}
    (hop : t.kind = .op op) (hne : op ≠ .notEqual) :
    t.lexeme = op.spelling ∧ t.span.stop = t.span.start + byteLength op.spelling.toList := by
  obtain ⟨m, lexeme, piece, mid, -, hread, heq⟩ := h.reads_of_mem ht
  rw [hop] at hread
  obtain ⟨rfl, rfl⟩ := hread.spelling hne
  rw [heq]
  exact ⟨by simp [Token.ofPiece], rfl⟩

end Scans

/-! ## The scanner follows the relation -/

namespace Scanner

variable {s next : Scanner} {t : Token}

theorem scanRest_eof (h : s.scan = (.ok t, next)) (ht : t.kind = .eof) :
    s.scanRest = ⟨[], .ok t, next.lines⟩ := by
  rw [scanRest]
  split
  · rename_i h'
    rw [h] at h'
    cases h'
  · rename_i h'
    rw [h] at h'
    cases h'
    rw [dif_pos ht]

theorem scanRest_token (h : s.scan = (.ok t, next)) (ht : t.kind ≠ .eof) :
    s.scanRest = { next.scanRest with tokens := t :: next.scanRest.tokens } := by
  rw [scanRest]
  split
  · rename_i h'
    rw [h] at h'
    cases h'
  · rename_i h'
    rw [h] at h'
    cases h'
    rw [dif_neg ht]

theorem scanRest_error {e : ScanError} (h : s.scan = (.error e, next)) :
    s.scanRest = ⟨[], .error e, next.lines⟩ := by
  rw [scanRest]
  split
  · rename_i h'
    rw [h] at h'
    cases h'
    rfl
  · rename_i h'
    rw [h] at h'
    cases h'

/-- The end of the input at an offset. -/
def endToken (o : Nat) : Token := ⟨.eof, "", o, o⟩

/-- A scan of `cs`, which stands at `o`, finds no token: it passes over `passed`
    to the end of the input, or to a fault and over it. -/
inductive Stops (o : Nat) : List Char → Except ScanError Token → List Char → Prop where
  | eof {gap : List Char} : Spacing gap → Stops o gap (.ok (endToken (o + byteLength gap))) gap
  | fault {gap cs piece rest : List Char} {fault : ScanFault} : Spacing gap →
      (∀ c ∈ cs.head?, isSpacing c = false) → reading cs = .fault fault piece rest →
      Stops o (gap ++ cs) (.error ⟨fault, o + byteLength gap⟩) (gap ++ piece)

theorem scanRest_stops {o : Nat} {cs passed : List Char} {ending : Except ScanError Token}
    (h : Stops o cs ending passed) (lines : LineTable) :
    (Scanner.mk cs o lines).scanRest = ⟨[], ending, lines.addLines o passed⟩ := by
  cases h with
  | eof hgap =>
    obtain ⟨htake, hdrop⟩ := takeWhile_append_stop cs [] hgap (by simp)
    rw [List.append_nil] at htake hdrop
    have hscan : (Scanner.mk cs o lines).scan =
        (.ok (endToken (o + byteLength cs)), ⟨[], o + byteLength cs, lines.addLines o cs⟩) := by
      simp [scan, skipSpacing, move, read, htake, hdrop, reading, endToken]
    exact scanRest_eof hscan rfl
  | @fault gap cs piece rest fault hgap hcs hread =>
    obtain ⟨htake, hdrop⟩ := takeWhile_append_stop gap cs hgap hcs
    have hscan : (Scanner.mk (gap ++ cs) o lines).scan =
        (.error ⟨fault, o + byteLength gap⟩,
          ⟨rest, o + byteLength gap + byteLength piece, lines.addLines o (gap ++ piece)⟩) := by
      simp [scan, skipSpacing, move, read, htake, hdrop, hread, LineTable.addLines_append]
    exact scanRest_error hscan

/-- What a step of the scanner finds where there is no token. -/
theorem stops_of_scan {e : Except ScanError Token} (h : s.scan = (e, next))
    (he : ∀ t, e = .ok t → t.kind = .eof) :
    ∃ passed, Stops s.offset s.rest e passed := by
  have hhead := head?_dropWhile_not (p := isSpacing) s.rest
  have hsplit := List.takeWhile_append_dropWhile (p := isSpacing) (l := s.rest)
  simp only [scan, skipSpacing, move, read] at h
  split at h
  · rename_i kind lexeme piece rest hr
    cases h
    obtain rfl : kind = .eof := he _ rfl
    have hnil := eq_nil_of_reading_eof hr
    rw [hnil] at hr
    simp only [reading, Reading.token.injEq] at hr
    obtain ⟨-, rfl, rfl, rfl⟩ := hr
    rw [hnil, List.append_nil] at hsplit
    refine ⟨s.rest, ?_⟩
    have hgap : Spacing s.rest := by
      rw [← hsplit]
      exact takeWhile_all
    simpa [endToken, hsplit] using Stops.eof (o := s.offset) hgap
  · rename_i fault piece rest hr
    cases h
    refine ⟨s.rest.takeWhile isSpacing ++ piece, ?_⟩
    have hgap : Spacing (s.rest.takeWhile isSpacing) := takeWhile_all
    have hstop := Stops.fault (o := s.offset) hgap hhead hr
    rwa [hsplit] at hstop

/-- A step of the scanner over a token. -/
theorem scan_reads {gap lexeme piece mid : List Char} {kind : TokenKind} (hg : Spacing gap)
    (hr : Reads kind lexeme piece mid) (o : Nat) (lines : LineTable) :
    (Scanner.mk (gap ++ piece ++ mid) o lines).scan =
      (.ok (.ofPiece kind lexeme piece (o + byteLength gap)),
        ⟨mid, o + byteLength gap + byteLength piece, lines.addLines o (gap ++ piece)⟩) := by
  have hhead : ∀ d ∈ (piece ++ mid).head?, isSpacing d = false := by
    rw [List.head?_append_of_ne_nil _ hr.piece_ne_nil]
    exact hr.head_not_spacing
  obtain ⟨htake, hdrop⟩ := takeWhile_append_stop gap (piece ++ mid) hg hhead
  rw [← List.append_assoc] at htake hdrop
  simp only [scan, skipSpacing, move, htake, hdrop, read, hr.reading, LineTable.addLines_append]
  rfl

/-- What a step of the scanner reads. -/
theorem scan_eq_ok (h : s.scan = (.ok t, next)) :
    (t.kind = .eof ∧ Spacing s.rest) ∨
      ∃ gap lexeme piece, Spacing gap ∧ Reads t.kind lexeme piece next.rest ∧
        s.rest = gap ++ piece ++ next.rest ∧
        t = .ofPiece t.kind lexeme piece (s.offset + byteLength gap) ∧
        next.offset = s.offset + byteLength gap + byteLength piece := by
  have hhead := head?_dropWhile_not (p := isSpacing) s.rest
  have hsplit := List.takeWhile_append_dropWhile (p := isSpacing) (l := s.rest)
  have happ := reading_append (s.rest.dropWhile isSpacing)
  simp only [scan, skipSpacing, move, read] at h
  split at h
  · rename_i kind lexeme piece rest hr
    cases h
    rw [hr] at happ
    by_cases hk : kind = .eof
    · subst hk
      left
      refine ⟨rfl, ?_⟩
      have hnil := eq_nil_of_reading_eof hr
      rw [hnil, List.append_nil] at hsplit
      rw [← hsplit]
      exact takeWhile_all
    · right
      refine ⟨s.rest.takeWhile isSpacing, lexeme, piece, takeWhile_all,
        reads_of_reading hr hk hhead, ?_, rfl, rfl⟩
      rw [List.append_assoc]
      exact (hsplit.symm.trans (congrArg _ happ.symm))
  · cases h

/-- A scan goes on behind the tokens that it passes over. -/
theorem scanRest_scans {o : Nat} {used rest : List Char} {ts : List Token}
    (h : Scans o (used ++ rest) ts rest) (lines : LineTable) :
    (Scanner.mk (used ++ rest) o lines).scanRest =
      let more := (Scanner.mk rest (o + byteLength used) (lines.addLines o used)).scanRest
      { more with tokens := ts ++ more.tokens } := by
  generalize hcs : used ++ rest = cs at h
  induction h generalizing used lines with
  | nil =>
    have : used = [] := by simpa using hcs
    simp [this]
  | @cons o gap lexeme piece mid rest kind ts hg hr hs ih =>
    obtain ⟨used', rfl⟩ := hs.suffix
    have hused : used = gap ++ piece ++ used' := by
      rw [← List.append_assoc] at hcs
      exact List.append_cancel_right hcs
    rw [scanRest_token (scan_reads hg hr o lines) hr.kind_ne_eof, ih _ rfl]
    simp only [hused, LineTable.addLines_append, byteLength_append, Nat.add_assoc,
      List.cons_append]

end Scanner

/-- **The tokens of a text**: those that a scan passes over on its way to where it
    stops. -/
theorem scanText_eq {used rest passed : List Char} {ts : List Token}
    {ending : Except ScanError Token} (h : Scans 0 (used ++ rest) ts rest)
    (hrest : Scanner.Stops (byteLength used) rest ending passed) :
    scanText (used ++ rest) = ⟨ts, ending, LineTable.empty.addLines 0 (used ++ passed)⟩ := by
  have hscan := Scanner.scanRest_scans h LineTable.empty
  rw [Nat.zero_add, Scanner.scanRest_stops hrest] at hscan
  unfold scanText Scanner.ofText
  rw [hscan]
  simp [LineTable.addLines_append]

/-- Every scan passes over tokens and stops. -/
theorem Scanner.scans_of_scanRest (s : Scanner) :
    ∃ used rest passed, s.rest = used ++ rest ∧ Scans s.offset (used ++ rest) s.scanRest.tokens rest ∧
      Stops (s.offset + byteLength used) rest s.scanRest.ending passed := by
  fun_induction Scanner.scanRest s with
  | case1 s e next hs =>
    obtain ⟨passed, hstops⟩ := stops_of_scan hs (by simp)
    exact ⟨[], s.rest, passed, rfl, .nil, hstops⟩
  | case2 s t next hs ht =>
    obtain ⟨passed, hstops⟩ := stops_of_scan hs (by simpa using ht)
    exact ⟨[], s.rest, passed, rfl, .nil, hstops⟩
  | case3 s t next hs ht _ more ih =>
    obtain ⟨used, rest, passed, hnext, hscans, hstops⟩ := ih
    rcases scan_eq_ok hs with ⟨hk, -⟩ | ⟨gap, lexeme, piece, hg, hr, hs', ht', ho⟩
    · exact absurd hk ht
    · rw [hnext] at hr
      refine ⟨gap ++ piece ++ used, rest, passed, by rw [hs', hnext]; simp, ?_, ?_⟩
      · rw [ht', List.append_assoc]
        exact .cons hg hr (ho ▸ hscans)
      · simpa [ho, Nat.add_assoc] using hstops

/-- The tokens of a text, up to its end or the first fault. -/
theorem scans_of_scanText (text : List Char) :
    ∃ used rest passed, text = used ++ rest ∧ Scans 0 (used ++ rest) (scanText text).tokens rest ∧
      Scanner.Stops (byteLength used) rest (scanText text).ending passed := by
  obtain ⟨used, rest, passed, htext, hscans, hstops⟩ := Scanner.scans_of_scanRest (.ofText text)
  rw [show (Scanner.ofText text).offset = 0 from rfl, Nat.zero_add] at hstops
  exact ⟨used, rest, passed, htext, hscans, hstops⟩

/-! ## Sources -/

theorem readSource_eq_ok_iff {source : ByteArray} {text : List Char} :
    readSource source = .ok text ↔ source.size ≤ maxOffset ∧ source = text.utf8Encode := by
  unfold readSource
  split
  case isTrue hlarge => simpa using fun hsize => absurd hlarge (by omega)
  case isFalse hlarge =>
    cases hdecode : decode source with
    | error pos =>
      have hne : source ≠ text.utf8Encode := fun h => by
        rw [decode_eq_ok_iff.2 h] at hdecode
        cases hdecode
      simp [hne]
    | ok text' =>
      rw [← decode_eq_ok_iff, hdecode]
      simpa using fun _ => Nat.le_of_not_lt hlarge

theorem readSource_utf8Encode {text : List Char} (h : byteLength text ≤ maxOffset) :
    readSource text.utf8Encode = .ok text :=
  readSource_eq_ok_iff.2 ⟨by rwa [size_utf8Encode], rfl⟩

/-- More bytes than offsets can count are refused whatever they are. -/
theorem readSource_of_lt {source : ByteArray} (h : maxOffset < source.size) :
    readSource source = .error ⟨.tooLarge, 0⟩ := if_pos h

theorem readSource_of_le {source : ByteArray} {pos : Nat} (h : source.size ≤ maxOffset)
    (hdecode : decode source = .error pos) : readSource source = .error ⟨.invalidUtf8, pos⟩ := by
  rw [readSource, if_neg (Nat.not_lt.2 h), hdecode]

/-- What keeps a source from being read as text. -/
theorem readSource_eq_error {source : ByteArray} {e : ScanError} (h : readSource source = .error e) :
    maxOffset < source.size ∧ e = ⟨.tooLarge, 0⟩ ∨
      source.size ≤ maxOffset ∧ ∃ pos, decode source = .error pos ∧ e = ⟨.invalidUtf8, pos⟩ := by
  unfold readSource at h
  split at h
  case isTrue hlarge => exact .inl ⟨hlarge, (Except.error.inj h).symm⟩
  case isFalse hlarge =>
    split at h
    case h_1 pos hdecode =>
      exact .inr ⟨Nat.le_of_not_lt hlarge, pos, hdecode, (Except.error.inj h).symm⟩
    case h_2 => cases h

/-- A result of which something is computed is there. -/
theorem exists_ok_of_toOption {ε α β : Type} {x : Except ε α} {f : α → β} {b : β}
    (h : x.toOption.map f = some b) : ∃ a, x = .ok a ∧ f a = b := by
  cases x with
  | error e => cases h
  | ok a => exact ⟨a, rfl, Option.some.inj h⟩

/-- The tokens of a source, comments included; none if it cannot be scanned. -/
def tokens? (source : ByteArray) : Option (List Token) := (scanSource source).toOption.map (·.1)

/-- The tokens of a source are those of its text. -/
theorem tokens?_eq_some {source : ByteArray} {ts : List Token} :
    tokens? source = some ts ↔ ∃ text, readSource source = .ok text ∧
      (scanText text).tokens = ts ∧ ∃ t, (scanText text).ending = .ok t := by
  unfold tokens? scanSource
  cases readSource source with
  | error e => simp [Except.toOption]
  | ok text =>
    cases hend : (scanText text).ending with
    | error e => simp [Except.toOption, hend]
    | ok t => simp [Except.toOption, hend]

/-- The tokens of a text that was written out as a source. -/
theorem tokens?_utf8Encode {text : List Char} {ts : List Token}
    (h : tokens? text.utf8Encode = some ts) :
    text.utf8Encode.size ≤ maxOffset ∧ (scanText text).tokens = ts ∧
      ∃ t, (scanText text).ending = .ok t := by
  obtain ⟨cs, hread, hscan⟩ := tokens?_eq_some.1 h
  obtain ⟨hsize, htext⟩ := readSource_eq_ok_iff.1 hread
  have hdecode := decode_eq_ok_iff.2 htext
  rw [decode_utf8Encode] at hdecode
  obtain rfl := Except.ok.inj hdecode
  exact ⟨hsize, hscan⟩

/-- The tokens of a text by itself: those of the text in its place, moved to the
    front. -/
theorem tokens?_of_scans {o : Nat} {cs gap : List Char} {ts : List Token}
    (h : Scans o cs ts gap) (hgap : Spacing gap) (hsize : byteLength cs ≤ maxOffset) :
    ∃ us, ts = us.map (·.shift o) ∧ tokens? cs.utf8Encode = some us := by
  rw [← Nat.zero_add o] at h
  obtain ⟨us, hus, hscans⟩ := h.unshift
  obtain ⟨used, rfl⟩ := hscans.suffix
  have htext := scanText_eq hscans (.eof hgap)
  exact ⟨us, hus, tokens?_eq_some.2
    ⟨used ++ gap, readSource_utf8Encode hsize, by rw [htext], _, by rw [htext]⟩⟩

/-- A token by itself. -/
theorem tokens?_of_reads {kind : TokenKind} {lexeme piece : List Char}
    (h : Reads kind lexeme piece []) (hsize : byteLength piece ≤ maxOffset) :
    tokens? piece.utf8Encode = some [.ofPiece kind lexeme piece 0] := by
  have hnil : Spacing [] := by simp [Spacing]
  have hscans : Scans 0 ([] ++ piece ++ []) [.ofPiece kind lexeme piece 0] [] := .cons hnil h .nil
  obtain ⟨us, hus, htokens⟩ := tokens?_of_scans hscans hnil (by simpa using hsize)
  have hsame : us.map (·.shift 0) = us := by
    rw [show (Token.shift 0 : Token → Token) = id from rfl, List.map_id]
  rw [hus, hsame]
  simpa using htokens

/-- The tokens of a text are those that a scan passes over before the spacing at
    its end. -/
theorem scans_of_tokens? {text : String} {ts : List Token} (h : tokens? text.toUTF8 = some ts) :
    ∃ gap, Spacing gap ∧ Scans 0 text.toList ts gap := by
  rw [String.toUTF8_eq_toByteArray, ← String.utf8Encode_toList] at h
  obtain ⟨-, rfl, t, hending⟩ := tokens?_utf8Encode h
  obtain ⟨used, rest, passed, hsplit, hscans, hstops⟩ := scans_of_scanText text.toList
  rw [hending] at hstops
  rw [← hsplit] at hscans
  cases hstops with
  | eof hgap => exact ⟨rest, hgap, hscans⟩

end PackageDoc
