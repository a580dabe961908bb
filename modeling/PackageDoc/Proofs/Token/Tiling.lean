/-
  Scanning loses and invents nothing.

  The tokens of a source and the spacing among them make up the source
  (`Tiles`), and a token says what its source says (`Token.Faithful`): by itself
  that source holds just this token, a number, an operator or an illegal
  character is kept as it stands, a string lacks nothing but its quotes, and the
  kind of a word is that of its lexeme.

  Main statement: `tokens_tile`.
-/
import PackageDoc.Proofs.Token.Spelling

namespace PackageDoc

open Text

/-! ## Sources and their tokens -/

/-- The source from `m` up to `n` holds spaces, tabs, carriage returns and line
    feeds only. -/
def Gap (source : ByteArray) (m n : Nat) : Prop :=
  m ≤ n ∧ ∀ b ∈ (source.extract m n).data, b = 0x20 ∨ b = 0x09 ∨ b = 0x0D ∨ b = 0x0A

/-- From `o` on, the source consists of the tokens, in order, and of gaps. -/
def Tiles (source : ByteArray) (o : Nat) : List Token → Prop
  | [] => Gap source o source.size
  | t :: ts =>
    Gap source o t.span.start ∧ t.span.start < t.span.stop ∧ t.span.stop ≤ source.size ∧
      Tiles source t.span.stop ts

/-- A text with every quote written twice. -/
def doubleQuotes (cs : List Char) : List Char :=
  cs.flatMap fun c => if c = '\'' then ['\'', '\''] else [c]

/-- A token says what its source says; `after` are the tokens behind it. -/
structure Token.Faithful (source : ByteArray) (t : Token) (after : List Token) : Prop where
  alone : ∃ u, tokens? (source.extract t.span.start t.span.stop) = some [u] ∧ u.word = t.word
  verbatim : t.kind = .number ∨ t.kind = .illegal ∨ (∃ o, t.kind = .op o) →
    source.extract t.span.start t.span.stop = t.lexeme.toUTF8
  doubled : t.kind = .string → ∃ cs, t.lexeme.toList = doubleQuotes cs
  /-- only the last token may lack its closing quote, at the end of the source -/
  quotes : t.kind = .string →
    source.extract t.span.start t.span.stop = ("'" ++ t.lexeme ++ "'").toUTF8 ∨
      source.extract t.span.start t.span.stop = ("'" ++ t.lexeme).toUTF8 ∧ after = [] ∧
        t.span.stop = source.size
  reserved : ∀ k, t.kind = .keyword k → t.lexeme = k.spelling
  operator : ∀ o, t.kind = .op o → t.lexeme = o.spelling ∨ o = .notEqual ∧ t.lexeme = "!="
  name : t.kind = .ident → ∀ k : Keyword, t.lexeme ≠ k.spelling

/-! ## Gaps -/

theorem gap_of_spacing (front back : List Char) {gap : List Char} (h : Spacing gap) :
    Gap (front ++ gap ++ back).utf8Encode (byteLength front)
      (byteLength front + byteLength gap) := by
  refine ⟨Nat.le_add_right _ _, ?_⟩
  rw [extract_utf8Encode]
  induction gap with
  | nil => simp
  | cons c cs ih =>
    have hc := h c (by simp)
    simp only [isSpacing, Bool.or_eq_true, beq_iff_eq] at hc
    intro b hb
    rw [List.utf8Encode_cons, ByteArray.data_append, Array.mem_append] at hb
    rcases hb with hb | hb
    · rcases hc with ((rfl | rfl) | rfl) | rfl <;>
        (rw [List.utf8Encode_singleton] at hb; simp [String.utf8EncodeChar] at hb; simp [hb])
    · exact ih (fun d hd => h d (by simp [hd])) b hb

/-- The tokens that a scan passes over on its way to the end tile the text. -/
theorem Scans.tiles (front : List Char) {cs rest : List Char} {ts : List Token}
    (h : Scans (byteLength front) cs ts rest) (hrest : Spacing rest) :
    Tiles (front ++ cs).utf8Encode (byteLength front) ts := by
  generalize ho : byteLength front = o at h
  induction h generalizing front with
  | nil =>
    subst ho
    have hgap := gap_of_spacing front [] hrest
    simp only [List.append_nil] at hgap
    rwa [Tiles, size_utf8Encode, byteLength_append]
  | @cons o gap lexeme piece mid rest kind ts hgap hread hscans ih =>
    subst ho
    have hpos := byteLength_pos hread.piece_ne_nil
    have hbehind := ih (front ++ gap ++ piece) hrest (by simp [Nat.add_assoc])
    have hsplit : front ++ (gap ++ piece ++ mid) = front ++ gap ++ (piece ++ mid) := by simp
    have hsplit' : front ++ gap ++ piece ++ mid = front ++ gap ++ (piece ++ mid) := by simp
    rw [hsplit'] at hbehind
    rw [hsplit]
    refine ⟨gap_of_spacing front (piece ++ mid) hgap, ?_, ?_, ?_⟩
    · simp only [Token.ofPiece]
      omega
    · simp only [Token.ofPiece, size_utf8Encode, byteLength_append]
      omega
    · simpa [Token.ofPiece, Nat.add_assoc] using hbehind

/-! ## What is read -/

theorem doubleQuotes_of_quoted {body : List Char} (h : Quoted body) :
    ∃ cs, body = doubleQuotes cs := by
  unfold Quoted at h
  fun_induction splitString body with
  | case1 => exact ⟨[], rfl⟩
  | case2 cs b r hs ih =>
    simp only [Prod.mk.injEq, List.cons.injEq, true_and] at h
    obtain ⟨ds, hds⟩ := ih (by rw [hs, h.1, h.2])
    exact ⟨'\'' :: ds, by simp [doubleQuotes, hds]⟩
  | case3 cs hcs => simp at h
  | case4 c cs hc hc' b r hs ih =>
    simp only [Prod.mk.injEq, List.cons.injEq, true_and] at h
    obtain ⟨ds, hds⟩ := ih (by rw [hs, h.1, h.2])
    have hne : c ≠ '\'' := by
      rintro rfl
      exact hc' rfl
    exact ⟨c :: ds, by simp [doubleQuotes, hds, hne]⟩

theorem Keyword.mem_all (k : Keyword) : k ∈ Keyword.all := by
  cases k <;> decide

/-- The kind of a word tells whether its lexeme is reserved. -/
theorem wordKind_cases (lexeme : String) :
    (∃ k : Keyword, wordKind lexeme = .keyword k ∧ lexeme = k.spelling) ∨
      wordKind lexeme = .ident ∧ ∀ k : Keyword, lexeme ≠ k.spelling := by
  unfold wordKind Keyword.ofWord?
  cases h : Keyword.all.find? (·.spelling == lexeme) with
  | some k => exact .inl ⟨k, rfl, (by simpa using List.find?_some h : k.spelling = lexeme).symm⟩
  | none =>
    refine .inr ⟨rfl, fun k hk => ?_⟩
    have hne := List.find?_eq_none.1 h k k.mem_all
    simp [hk] at hne

namespace Reads

variable {kind : TokenKind} {lexeme piece rest : List Char}

theorem verbatim (h : Reads kind lexeme piece rest)
    (hkind : kind = .number ∨ kind = .illegal ∨ ∃ o, kind = .op o) : lexeme = piece := by
  cases h with
  | @word c cs =>
    rcases wordKind_cases (String.ofList (wordLexeme (c :: cs))) with ⟨k, hk, -⟩ | ⟨hk, -⟩ <;>
      simp [hk] at hkind
  | number | pair | single | illegal => rfl
  | _ => simp at hkind

theorem quoted (h : Reads kind lexeme piece rest) (hkind : kind = .string) : Quoted lexeme := by
  cases h with
  | @word c cs =>
    rcases wordKind_cases (String.ofList (wordLexeme (c :: cs))) with ⟨k, hk, -⟩ | ⟨hk, -⟩ <;>
      simp [hk] at hkind
  | string hq | openString hq => exact hq
  | _ => simp at hkind

theorem reserved (h : Reads kind lexeme piece rest) :
    (∀ k, kind = .keyword k → String.ofList lexeme = k.spelling) ∧
      (kind = .ident → ∀ k : Keyword, String.ofList lexeme ≠ k.spelling) := by
  cases h with
  | @word c cs =>
    rcases wordKind_cases (String.ofList (wordLexeme (c :: cs))) with ⟨k, hk, hlexeme⟩ | ⟨hk, hlexeme⟩
    · rw [hk]
      exact ⟨fun k' hk' => by cases hk'; exact hlexeme, nofun⟩
    · rw [hk]
      exact ⟨nofun, fun _ => hlexeme⟩
  | _ => exact ⟨nofun, nofun⟩

/-- An operator is written as it is spelled, and an inequality also with an
    exclamation mark. -/
theorem operator {o : Operator} (h : Reads (.op o) lexeme piece rest) :
    String.ofList lexeme = o.spelling ∨ o = .notEqual ∧ String.ofList lexeme = "!=" := by
  by_cases ho : o = .notEqual
  · subst ho
    generalize hkind : TokenKind.op .notEqual = kind at h
    cases h with
    | @word c cs =>
      rcases wordKind_cases (String.ofList (wordLexeme (c :: cs))) with ⟨k, hk, -⟩ | ⟨hk, -⟩ <;>
        simp [hk] at hkind
    | pair hpair =>
      cases hkind
      unfold pairOperator? at hpair
      split at hpair <;> cases hpair
      · exact .inl rfl
      · exact .inr ⟨rfl, rfl⟩
    | single hsingle =>
      cases hkind
      have hmem := (mem_of_operator?_singleton hsingle).1
      fin_cases hmem <;> simp [operator?] at hsingle
    | _ => cases hkind
  · rw [(h.spelling ho).1, String.ofList_toList]
    exact .inl rfl

end Reads

/-- A token of a scan, with the text that it was read from and what follows it. -/
theorem Scans.reads_at {o : Nat} {cs rest : List Char} {before after : List Token} {t : Token}
    (h : Scans o cs (before ++ t :: after) rest) :
    ∃ front lexeme piece mid, cs = front ++ piece ++ mid ∧ Reads t.kind lexeme piece mid ∧
      t = .ofPiece t.kind lexeme piece (o + byteLength front) ∧
      Scans (o + byteLength front + byteLength piece) mid after rest := by
  obtain ⟨used, back, rfl, -, hback⟩ := h.of_append
  cases hback with
  | @cons _ gap lexeme piece mid _ kind _ hgap hread hscans =>
    refine ⟨used ++ gap, lexeme, piece, mid, by simp, hread, ?_, ?_⟩
    · simp [Token.ofPiece, Nat.add_assoc]
    · simpa [Nat.add_assoc] using hscans

/-- A token that was read from a piece of a text says what that piece says. -/
theorem faithful_of_reads {front lexeme piece mid : List Char} {kind : TokenKind}
    {after : List Token} (h : Reads kind lexeme piece mid) (hafter : mid = [] → after = [])
    (hsize : byteLength (front ++ piece ++ mid) ≤ maxOffset) :
    (Token.ofPiece kind lexeme piece (byteLength front)).Faithful
      (front ++ piece ++ mid).utf8Encode after := by
  have hslice : (front ++ piece ++ mid).utf8Encode.extract
      (Token.ofPiece kind lexeme piece (byteLength front)).span.start
      (Token.ofPiece kind lexeme piece (byteLength front)).span.stop = piece.utf8Encode :=
    extract_utf8Encode front piece mid
  constructor
  case alone =>
    rw [hslice]
    simp only [byteLength_append] at hsize
    exact ⟨_, tokens?_of_reads h.cut (by omega), rfl⟩
  case verbatim =>
    intro hkind
    rw [hslice, ← h.verbatim hkind, String.toUTF8_eq_toByteArray, ← String.utf8Encode_toList]
    simp [Token.ofPiece]
  case doubled =>
    intro hkind
    simpa [Token.ofPiece] using doubleQuotes_of_quoted (h.quoted hkind)
  case quotes =>
    intro hkind
    obtain rfl : kind = .string := hkind
    rw [hslice]
    rcases h.string_cases with rfl | ⟨rfl, rfl⟩
    · left
      rw [String.toUTF8_eq_toByteArray, ← String.utf8Encode_toList]
      simp [Token.ofPiece]
    · right
      refine ⟨?_, hafter rfl, ?_⟩
      · rw [String.toUTF8_eq_toByteArray, ← String.utf8Encode_toList]
        simp [Token.ofPiece]
      · simp [Token.ofPiece, size_utf8Encode]
  case reserved => exact h.reserved.1
  case operator =>
    rintro o rfl
    exact h.operator
  case name => exact h.reserved.2

/-! ## Sources -/

/-- **Scanning loses and invents nothing**: the tokens and gaps make up the source,
    and every token says what its source says. -/
theorem tokens_tile {source : ByteArray} {ts : List Token} (h : tokens? source = some ts) :
    Tiles source 0 ts ∧
      ∀ before t after, ts = before ++ t :: after → t.Faithful source after := by
  obtain ⟨text, hread, rfl, eof, hending⟩ := tokens?_eq_some.1 h
  obtain ⟨used, rest, passed, htext, hscans, hstops⟩ := scans_of_scanText text
  rw [← htext] at hscans
  obtain ⟨hsize, rfl⟩ := readSource_eq_ok_iff.1 hread
  rw [size_utf8Encode] at hsize
  constructor
  · rw [hending] at hstops
    cases hstops with
    | eof hgap => exact Scans.tiles [] hscans hgap
  · intro before t after hsplit
    rw [hsplit] at hscans
    obtain ⟨front, lexeme, piece, mid, rfl, hread, ht, hafter⟩ := hscans.reads_at
    rw [ht, Nat.zero_add]
    refine faithful_of_reads hread (fun hmid => ?_) hsize
    rw [hmid] at hafter
    exact hafter.of_nil.1

/-- A source with an inequality in both spellings, a word that lowercasing makes
    longer, a carriage return in a comment and a string that is not closed. -/
theorem tokens_tile_open_string :
    ∃ ts, tokens? "A<>İ!=7 --x\r\n'it''s".toUTF8 = some ts ∧
      ts.map Token.word = [(.ident, "a"), (.op .notEqual, "<>"), (.ident, "i̇"),
        (.op .notEqual, "!="), (.number, "7"), (.comment, "--x"), (.string, "it''s")] ∧
      Tiles "A<>İ!=7 --x\r\n'it''s".toUTF8 0 ts ∧
      ∀ before t after, ts = before ++ t :: after →
        t.Faithful "A<>İ!=7 --x\r\n'it''s".toUTF8 after := by
  have hscan : (tokens? "A<>İ!=7 --x\r\n'it''s".toUTF8).map (·.map Token.word) =
      some [(.ident, "a"), (.op .notEqual, "<>"), (.ident, "i̇"), (.op .notEqual, "!="),
        (.number, "7"), (.comment, "--x"), (.string, "it''s")] := by
    decide +kernel
  obtain ⟨ts, hts, hwords⟩ := Option.map_eq_some_iff.1 hscan
  exact ⟨ts, hts, hwords, tokens_tile hts⟩

end PackageDoc
