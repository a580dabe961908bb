/-
  The case of words.

  The scanner lowercases a word that holds a capital letter and keeps any other word
  as it stands.  That is full lowercasing for the words that `Folds` describes: those
  with a capital letter, and those without a titlecase letter.  A word with titlecase
  letters and no capital ones, such as `ǅ`, keeps them in its lexeme.  It is never a
  reserved word, however it is lowercased (`wordKind_wordLexeme`), so only the texts of
  names are concerned.

  Main statement: `words_fold`.
-/
import PackageDoc.Proofs.Text.Titlecase
import PackageDoc.Proofs.Token.Separation
import PackageDoc.Proofs.Token.Tiling

namespace PackageDoc

open Text

/-! ## Words -/

/-- Whether the lexeme of a word is its full lowercase form: the word holds a capital
    letter, or nothing that lowercasing changes. -/
def Folds (word : List Char) : Prop :=
  word.any isUppercase = true ∨ word.any isTitlecase = false

theorem exists_titlecase_of_not_folds {word : List Char} (h : ¬ Folds word) :
    ∃ c ∈ word, isTitlecase c = true := by
  simpa using fun hnone => h (.inr hnone)

theorem wordLexeme_of_not_folds {word : List Char} (h : ¬ Folds word) : wordLexeme word = word :=
  if_neg fun hcapital => h (.inl hcapital)

/-- **The shortcut that keeps a word** agrees with lowercasing on the words that fold. -/
theorem wordLexeme_eq_lowercase_iff {word : List Char} :
    wordLexeme word = lowercase word ↔ Folds word := by
  cases hcapital : word.any isUppercase with
  | true => simp [wordLexeme, hcapital, Folds]
  | false =>
    have hkept : wordLexeme word = word := by simp [wordLexeme, hcapital]
    rw [hkept, eq_comm, lowercase_eq_self_iff hcapital]
    simp [Folds, hcapital]

/-- Two spellings of one word have the same lexeme iff both are folded, or they do
    not differ at all. -/
theorem wordLexeme_eq_iff {v w : List Char} (h : lowercase v = lowercase w) :
    wordLexeme v = wordLexeme w ↔ Folds v ∧ Folds w ∨ v = w := by
  constructor
  · intro hlexeme
    by_cases hv : Folds v
    · refine .inl ⟨hv, ?_⟩
      rw [← wordLexeme_eq_lowercase_iff] at hv ⊢
      rw [← hlexeme, hv, h]
    · by_cases hw : Folds w
      · rw [← wordLexeme_eq_lowercase_iff] at hv hw
        exact absurd (hlexeme.trans (hw.trans h.symm)) hv
      · rw [wordLexeme_of_not_folds hv, wordLexeme_of_not_folds hw] at hlexeme
        exact .inr hlexeme
  · rintro (⟨hv, hw⟩ | rfl)
    · rw [wordLexeme_eq_lowercase_iff.2 hv, wordLexeme_eq_lowercase_iff.2 hw, h]
    · rfl

/-! ## Reserved words -/

theorem Keyword.ascii_spelling (k : Keyword) : ∀ c ∈ k.spelling.toList, c.toNat ≤ 0x7F := by
  have hall : (Keyword.all.all fun k => k.spelling.toList.all fun c => c.toNat ≤ 0x7F) = true := by
    decide +kernel
  have hk := List.all_eq_true.1 hall k k.mem_all
  simpa using hk

theorem wordKind_of_not_ascii {cs : List Char} {c : Char} (hc : c ∈ cs) (h : 0x7F < c.toNat) :
    wordKind (String.ofList cs) = .ident := by
  rcases wordKind_cases (String.ofList cs) with ⟨k, -, hk⟩ | ⟨hident, -⟩
  · have hle := k.ascii_spelling c (by rw [← hk, String.toList_ofList]; exact hc)
    omega
  · exact hident

theorem wordKind_of_not_folds {word : List Char} (h : ¬ Folds word) :
    wordKind (String.ofList (wordLexeme word)) = .ident := by
  obtain ⟨c, hc, htitle⟩ := exists_titlecase_of_not_folds h
  rw [wordLexeme_of_not_folds h]
  exact wordKind_of_not_ascii hc (not_ascii_of_isTitlecase htitle)

/-- **A word is reserved iff its lowercase form is**, folded or not. -/
theorem wordKind_wordLexeme (word : List Char) :
    wordKind (String.ofList (wordLexeme word)) = wordKind (String.ofList (lowercase word)) := by
  by_cases h : Folds word
  · rw [wordLexeme_eq_lowercase_iff.2 h]
  · obtain ⟨c, hc, htitle⟩ := exists_titlecase_of_not_folds h
    obtain ⟨d, hd, hascii⟩ := exists_mem_lowercase_of_isTitlecase hc htitle
    rw [wordKind_of_not_folds h, wordKind_of_not_ascii hd hascii]

/-! ## Sources -/

/-- The token is a name or a reserved word of the source, which writes it as `word`.
    What comes behind the token may be at fault. -/
structure Token.WrittenAs (t : Token) (source : ByteArray) (word : List Char) : Prop where
  scanned : ∃ text, decode source = .ok text ∧ t ∈ (scanText text).tokens
  isName : t.kind.isName = true
  bytes : source.extract t.span.start t.span.stop = word.utf8Encode

/-- A name is read from a word. -/
theorem Reads.of_isName {kind : TokenKind} {lexeme piece rest : List Char}
    (h : Reads kind lexeme piece rest) (hname : kind.isName = true) :
    lexeme = wordLexeme piece ∧ kind = wordKind (String.ofList (wordLexeme piece)) := by
  cases h with
  | word => exact ⟨rfl, rfl⟩
  | _ => cases hname

/-- A token of a source, with the piece of the source that it was read from. -/
theorem exists_reads {source : ByteArray} {text : List Char} (hdecode : decode source = .ok text)
    {t : Token} (ht : t ∈ (scanText text).tokens) :
    ∃ lexeme piece mid, Reads t.kind lexeme piece mid ∧ t.lexeme = String.ofList lexeme ∧
      source.extract t.span.start t.span.stop = piece.utf8Encode := by
  obtain ⟨used, rest, -, htext, hscans, -⟩ := scans_of_scanText text
  obtain ⟨before, after, hsplit⟩ := List.append_of_mem ht
  rw [hsplit] at hscans
  obtain ⟨front, lexeme, piece, mid, hcs, hread, hpiece, -⟩ := hscans.reads_at
  refine ⟨lexeme, piece, mid, hread, by rw [hpiece]; rfl, ?_⟩
  rw [decode_eq_ok_iff.1 hdecode, htext, hcs, hpiece]
  simpa [Token.ofPiece] using extract_utf8Encode front piece mid

namespace Token.WrittenAs

variable {t u : Token} {source : ByteArray} {word : List Char}

theorem word_eq (h : t.WrittenAs source word) :
    t.kind = wordKind (String.ofList (wordLexeme word)) ∧
      t.lexeme = String.ofList (wordLexeme word) := by
  obtain ⟨text, hdecode, ht⟩ := h.scanned
  obtain ⟨lexeme, piece, mid, hread, hlexeme, hbytes⟩ := exists_reads hdecode ht
  obtain rfl : word = piece := by
    have hdecoded := congrArg decode (h.bytes.symm.trans hbytes)
    simpa using hdecoded
  obtain ⟨rfl, hkind⟩ := hread.of_isName h.isName
  exact ⟨hkind, hlexeme⟩

theorem kind_eq (h : t.WrittenAs source word) :
    t.kind = wordKind (String.ofList (lowercase word)) :=
  h.word_eq.1.trans (wordKind_wordLexeme word)

/-- The lexeme is lowercased in full iff the word folds. -/
theorem lexeme_eq_iff (h : t.WrittenAs source word) :
    t.lexeme = String.ofList (lowercase word) ↔ Folds word := by
  rw [h.word_eq.2, String.ofList_inj, wordLexeme_eq_lowercase_iff]

/-- Words that fold to one text scan alike iff both are folded, or they do not differ. -/
theorem alike_iff {source' : ByteArray} {word' : List Char} (h : t.WrittenAs source word)
    (h' : u.WrittenAs source' word') (heq : lowercase word = lowercase word') :
    t.kind = u.kind ∧ (t.lexeme = u.lexeme ↔ Folds word ∧ Folds word' ∨ word = word') := by
  refine ⟨by rw [h.kind_eq, h'.kind_eq, heq], ?_⟩
  rw [h.word_eq.2, h'.word_eq.2, String.ofList_inj, wordLexeme_eq_iff heq]

end Token.WrittenAs

/-- **Which words are lowercased.**  Every name and every reserved word of a valid
    UTF-8 source is written as some word.  Its kind is that of the word's full lowercase
    form, and its lexeme is that form iff the word folds; the lexeme of any other word,
    one with titlecase letters and no capital ones, is the word as it stands, and it is
    a name.  Words with one lowercase form have one kind, and one lexeme iff they both
    fold or are the same. -/
theorem words_fold {source : ByteArray} {text : List Char} (hdecode : decode source = .ok text)
    {t : Token} (ht : t ∈ (scanText text).tokens) (hname : t.kind.isName = true) :
    ∃ word, t.WrittenAs source word ∧ t.kind = wordKind (String.ofList (lowercase word)) ∧
      (t.lexeme = String.ofList (lowercase word) ↔ Folds word) ∧
      (¬ Folds word → t.kind = .ident ∧ t.lexeme = String.ofList word) ∧
      ∀ {source' : ByteArray} {u : Token} {word' : List Char}, u.WrittenAs source' word' →
        lowercase word = lowercase word' →
          t.kind = u.kind ∧ (t.lexeme = u.lexeme ↔ Folds word ∧ Folds word' ∨ word = word') := by
  obtain ⟨lexeme, word, mid, -, -, hbytes⟩ := exists_reads hdecode ht
  have hword : t.WrittenAs source word := ⟨⟨text, hdecode, ht⟩, hname, hbytes⟩
  refine ⟨word, hword, hword.kind_eq, hword.lexeme_eq_iff, fun hfolds => ⟨?_, ?_⟩,
    fun hword' heq => hword.alike_iff hword' heq⟩
  · rw [hword.word_eq.1, wordKind_of_not_folds hfolds]
  · rw [hword.word_eq.2, wordLexeme_of_not_folds hfolds]

/-- A name with a titlecase letter and a capital one is lowercased in full. -/
theorem words_fold_mixed :
    ∃ t, (scanText "ǅX ".toList).tokens = [t] ∧ t.lexeme = "ǆx" ∧
      ∃ word, t.WrittenAs "ǅX ".toUTF8 word ∧
        (t.lexeme = String.ofList (lowercase word) ↔ Folds word) := by
  have hscan : (scanText "ǅX ".toList).tokens.map Token.word = [(.ident, "ǆx")] := by
    decide +kernel
  obtain ⟨t, htokens, hword⟩ := List.map_eq_singleton_iff.1 hscan
  have hdecode : decode "ǅX ".toUTF8 = .ok "ǅX ".toList := by
    rw [String.toUTF8_eq_toByteArray, ← String.utf8Encode_toList, decode_utf8Encode]
  obtain ⟨hkind, hlexeme⟩ : t.kind = .ident ∧ t.lexeme = "ǆx" := Prod.ext_iff.1 hword
  have ht : t ∈ (scanText "ǅX ".toList).tokens := by
    rw [htokens]
    exact List.mem_singleton_self t
  obtain ⟨word, hwritten, -, hfolds, -⟩ := words_fold hdecode ht (by rw [hkind]; rfl)
  exact ⟨t, htokens, hlexeme, word, hwritten, hfolds⟩

/-- Three spellings of one letter: the titlecase one is not folded. -/
theorem titlecase_kept :
    (tokens? "ǅ Ǆ ǆ".toUTF8).map (·.map Token.word) =
        some [(.ident, "ǅ"), (.ident, "ǆ"), (.ident, "ǆ")] ∧
      ["ǅ", "Ǆ", "ǆ"].map (fun s => String.ofList (lowercase s.toList)) = ["ǆ", "ǆ", "ǆ"] := by
  decide +kernel

end PackageDoc
