/-
  Texts that spell words.

  `Spells cs ws` says that the text `cs` is scanned to tokens with the kinds and
  lexemes `ws` wherever it stands, if no token can go on behind it.  Texts that
  spell something are put together with `Spells.append`, where the second starts
  with a separator, and a word, an operator and every text that is put together
  from its own tokens spell what they should (`spells_word`, `spells_text`).
-/
import PackageDoc.Parser.TypeText
import PackageDoc.Proofs.Token.Scan

namespace PackageDoc

open Text

/-- Wherever the text stands, it is scanned to tokens with these kinds and
    lexemes. -/
def Spells (cs : List Char) (ws : List (TokenKind × String)) : Prop :=
  ∀ o more, (∀ c ∈ more.head?, isSeparator c = true) →
    ∃ ts gap, Spacing gap ∧ Scans o (cs ++ more) ts (gap ++ more) ∧ ts.map Token.word = ws

/-! ## Putting texts together -/

theorem Spacing.append {cs ds : List Char} (hcs : Spacing cs) (hds : Spacing ds) :
    Spacing (cs ++ ds) := by
  intro c hc
  rcases List.mem_append.1 hc with hc | hc
  · exact hcs c hc
  · exact hds c hc

/-- A scan may start before the spacing in front of a text. -/
theorem Scans.indent {o : Nat} {gap cs rest : List Char} {ts : List Token} (hgap : Spacing gap)
    (h : Scans (o + byteLength gap) cs ts rest) (hts : ts ≠ []) : Scans o (gap ++ cs) ts rest := by
  cases h with
  | nil => exact absurd rfl hts
  | @cons _ gap' lexeme piece mid _ kind ts hgap' hread hscans =>
    have hcons := Scans.cons (o := o) (hgap.append hgap') hread
      (by simpa [Nat.add_assoc] using hscans)
    simpa [Nat.add_assoc] using hcons

namespace Spells

variable {cs ds gap : List Char} {ws vs : List (TokenKind × String)}

theorem nil : Spells [] [] := fun _ _ _ => ⟨[], [], by simp [Spacing], .nil, rfl⟩

theorem indent (hgap : Spacing gap) (h : Spells cs ws) : Spells (gap ++ cs) ws := by
  intro o more hmore
  obtain ⟨ts, gap', hgap', hscans, hws⟩ := h (o + byteLength gap) more hmore
  rw [List.append_assoc]
  cases ts with
  | nil =>
    have hcs : cs = gap' := List.append_cancel_right hscans.eq_of_nil
    exact ⟨[], gap ++ gap', hgap.append hgap', by rw [hcs, ← List.append_assoc]; exact .nil, hws⟩
  | cons t ts => exact ⟨t :: ts, gap', hgap', hscans.indent hgap (by simp), hws⟩

/-- Texts that follow each other, the second of them behind a separator. -/
theorem append (h : Spells cs ws) (h' : Spells ds vs)
    (hds : ∀ c ∈ ds.head?, isSeparator c = true) : Spells (cs ++ ds) (ws ++ vs) := by
  intro o more hmore
  have hsep : ∀ c ∈ (ds ++ more).head?, isSeparator c = true := by
    cases ds with
    | nil => exact hmore
    | cons d ds => exact hds
  obtain ⟨ts, gap, hgap, hscans, rfl⟩ := h o (ds ++ more) hsep
  obtain ⟨used, hused⟩ := hscans.suffix
  have hused : cs ++ (ds ++ more) = (used ++ gap) ++ (ds ++ more) := by simpa using hused
  have hcs : cs = used ++ gap := List.append_cancel_right hused
  obtain ⟨us, gap', hgap', hscans', rfl⟩ :=
    h'.indent hgap (o + byteLength used) more hmore
  refine ⟨ts ++ us, gap', hgap', ?_, by simp⟩
  rw [hcs] at hscans ⊢
  simp only [List.append_assoc] at hscans hscans' ⊢
  exact hscans.append hscans'

/-- A single token. -/
theorem of_reads {kind : TokenKind} {lexeme piece : List Char}
    (h : ∀ more : List Char, (∀ c ∈ more.head?, isSeparator c = true) →
      Reads kind lexeme piece more) : Spells piece [(kind, String.ofList lexeme)] := by
  intro o more hmore
  have hnil : Spacing [] := by simp [Spacing]
  have hscans := Scans.cons (o := o) hnil (h more hmore) .nil
  exact ⟨[_], [], hnil, hscans, rfl⟩

/-- An operator that no other character goes together with, before any text. -/
theorem symbol {c : Char} {op : Operator} (hop : operator? [c] = some (op, 1))
    (hpairs : ∀ d, pairs c d = false) (h : Spells cs ws) :
    Spells (c :: cs) ((.op op, String.singleton c) :: ws) := by
  intro o more hmore
  obtain ⟨ts, gap, hgap, hscans, rfl⟩ := h (o + byteLength [c]) more hmore
  have hnil : Spacing [] := by simp [Spacing]
  have hread : Reads (.op op) [c] [c] (cs ++ more) := .single hop fun d _ => hpairs d
  have hscans' := Scans.cons (o := o) hnil hread (by simpa using hscans)
  exact ⟨_, gap, hgap, hscans', by simp [Token.word, Token.ofPiece]⟩

end Spells

/-! ## Strings -/

/-- Whether the text starts with a separator, if with anything. -/
def Apart (s : String) : Prop := ∀ c ∈ s.toList.head?, isSeparator c = true

theorem apart_empty : Apart "" := by simp [Apart]

theorem apart_space (s : String) : Apart (" " ++ s) := by
  simp [Apart, isSeparator, isSpacing]

theorem apart_openParen (s : String) : Apart ("(" ++ s) := by
  simp [Apart, isSeparator, isSpacing]

theorem apart_closeParen (s : String) : Apart (")" ++ s) := by
  simp [Apart, isSeparator, isSpacing]

theorem apart_comma (s : String) : Apart ("," ++ s) := by
  simp [Apart, isSeparator, isSpacing]

theorem apart_semicolon (s : String) : Apart (";" ++ s) := by
  simp [Apart, isSeparator, isSpacing]

theorem apart_newline (s : String) : Apart ("\n" ++ s) := by
  simp [Apart, isSeparator, isSpacing]

namespace Spells

variable {s t : String} {ws vs : List (TokenKind × String)}

theorem concat (h : Spells s.toList ws) (h' : Spells t.toList vs) (ht : Apart t) :
    Spells (s ++ t).toList (ws ++ vs) := by
  rw [String.toList_append]
  exact h.append h' ht

theorem blank (hs : Spacing s.toList) (h : Spells t.toList ws) : Spells (s ++ t).toList ws := by
  rw [String.toList_append]
  exact h.indent hs

theorem space (h : Spells t.toList ws) : Spells (" " ++ t).toList ws :=
  h.blank (by simp [Spacing, isSpacing])

theorem newline (h : Spells t.toList ws) : Spells ("\n" ++ t).toList ws :=
  h.blank (by simp [Spacing, isSpacing])

end Spells

/-! ## Operators -/

section
variable {t : String} {ws : List (TokenKind × String)}

theorem spells_openParen (h : Spells t.toList ws) :
    Spells ("(" ++ t).toList ((.op .openParen, "(") :: ws) := by
  rw [String.toList_append]
  exact .symbol (c := '(') rfl (fun d => by simp [pairs, pairOperator?]) h

theorem spells_closeParen (h : Spells t.toList ws) :
    Spells (")" ++ t).toList ((.op .closeParen, ")") :: ws) := by
  rw [String.toList_append]
  exact .symbol (c := ')') rfl (fun d => by simp [pairs, pairOperator?]) h

theorem spells_comma (h : Spells t.toList ws) :
    Spells ("," ++ t).toList ((.op .comma, ",") :: ws) := by
  rw [String.toList_append]
  exact .symbol (c := ',') rfl (fun d => by simp [pairs, pairOperator?]) h

theorem spells_semicolon (h : Spells t.toList ws) :
    Spells (";" ++ t).toList ((.op .semicolon, ";") :: ws) := by
  rw [String.toList_append]
  exact .symbol (c := ';') rfl (fun d => by simp [pairs, pairOperator?]) h

end

theorem spells_assign : Spells ":=".toList [(.op .assign, ":=")] :=
  .of_reads fun _ _ => .pair rfl

/-! ## Words -/

/-- Whether a text is a word as it stands. -/
def isWord (s : String) : Bool :=
  match s.toList with
  | [] => false
  | c :: cs => isNameStart c && cs.all isNameChar && wordLexeme (c :: cs) == c :: cs

theorem spells_word {s : String} (h : isWord s = true) :
    Spells s.toList [(wordKind s, s)] := by
  unfold isWord at h
  split at h
  · cases h
  · rename_i c cs hs
    simp only [Bool.and_eq_true, beq_iff_eq, List.all_eq_true] at h
    obtain ⟨⟨hc, hcs⟩, hlexeme⟩ := h
    have hspells : Spells (c :: cs) [(_, String.ofList (wordLexeme (c :: cs)))] :=
      .of_reads fun more hmore => .word hc hcs fun d hd => (isSeparator_class (hmore d hd)).2.1
    rw [hlexeme, ← hs, String.ofList_toList] at hspells
    exact hspells

/-- Whether a character stands in plain names. -/
def isPlainNameChar (c : Char) : Bool := c.isLower || c.isDigit || c == '_'

theorem toNat_lt_of_plain {c : Char} (h : isPlainNameChar c = true) : c.toNat < 128 := by
  have hclass : (decide (c.val ≥ 'a'.val) && decide (c.val ≤ 'z'.val) ||
      (decide (c.val ≥ '0'.val) && decide (c.val ≤ '9'.val)) || c == '_') = true := h
  simp only [Bool.or_eq_true, Bool.and_eq_true, decide_eq_true_eq, beq_iff_eq,
    UInt32.le_iff_toNat_le] at hclass
  rcases hclass with (⟨-, h⟩ | ⟨-, h⟩) | rfl
  · exact Nat.lt_of_le_of_lt h (by decide)
  · exact Nat.lt_of_le_of_lt h (by decide)
  · decide

/-- Small letters, digits and underscores behind a letter or an underscore are a
    word. -/
theorem isWord_of_plain {s : String} {c : Char} {cs : List Char} (hs : s.toList = c :: cs)
    (hc : c.isDigit = false) (hall : (c :: cs).all isPlainNameChar = true) :
    isWord s = true := by
  have hcs := List.all_eq_true.1 hall
  have hclass : ∀ n < 128, isPlainNameChar (Char.ofNat n) = true →
      ((Char.ofNat n).isDigit = true ∨ isNameStart (Char.ofNat n) = true) ∧
        isNameChar (Char.ofNat n) = true ∧ isUppercase (Char.ofNat n) = false := by
    decide +kernel
  have hchar : ∀ d, isPlainNameChar d = true → (d.isDigit = true ∨ isNameStart d = true) ∧
      isNameChar d = true ∧ isUppercase d = false := by
    intro d hd
    simpa using hclass d.toNat (toNat_lt_of_plain hd) (by simpa using hd)
  have hstart := ((hchar c (hcs c (by simp))).1).resolve_left (by simp [hc])
  have hlower : wordLexeme (c :: cs) = c :: cs := by
    unfold wordLexeme
    rw [if_neg]
    simpa using fun d hd => (hchar d (hcs d hd)).2.2
  unfold isWord
  rw [hs]
  simp only [hstart, hlower, Bool.true_and, beq_self_eq_true, Bool.and_true, List.all_eq_true]
  exact fun d hd => (hchar d (hcs d (by simp [hd]))).2.1

theorem spells_keyword (k : Keyword) : Spells k.spelling.toList [(.keyword k, k.spelling)] := by
  have hword : isWord k.spelling = true ∧ wordKind k.spelling = .keyword k := by
    cases k <;> exact ⟨isWord_of_plain rfl (by decide) (by decide), by decide⟩
  have hspells := spells_word hword.1
  rw [hword.2] at hspells
  exact hspells

/-! ## Texts that are put together from their tokens -/

/-- Only a string ends with a quote, and then no quote follows. -/
theorem Reads.getLast?_ne_quote {kind : TokenKind} {lexeme piece rest : List Char}
    (h : Reads kind lexeme piece rest) (hkind : kind ≠ .comment)
    (hrest : rest.head? = some '\'') : piece.getLast? ≠ some '\'' := by
  intro hlast
  have hmem := List.mem_of_getLast? hlast
  cases h with
  | word hc hcs _ =>
    rcases List.mem_cons.1 hmem with rfl | hmem
    · exact absurd hc (by decide)
    · exact absurd (hcs _ hmem) (by decide)
  | number _ hc hcs _ =>
    rcases List.mem_cons.1 hmem with rfl | hmem
    · exact absurd hc (by decide)
    · exact absurd (hcs _ hmem) (by decide)
  | string _ hstop => exact hstop '\'' hrest rfl
  | openString => cases hrest
  | lineComment => exact hkind rfl
  | blockComment => exact hkind rfl
  | pair hpair =>
    unfold pairOperator? at hpair
    split at hpair <;> simp at hpair hlast
  | single hsingle _ =>
    obtain rfl := List.mem_singleton.1 hmem
    cases hsingle
  | illegal _ hquote =>
    obtain rfl := List.mem_singleton.1 hmem
    exact hquote rfl

/-- A string does not follow a quote. -/
theorem Scans.getLast?_ne_quote {o : Nat} {used rest : List Char} {ts : List Token}
    (h : Scans o (used ++ rest) ts rest) (hplain : ∀ t ∈ ts, t.kind ≠ .comment)
    (hrest : rest.head? = some '\'') : used.getLast? ≠ some '\'' := by
  generalize hcs : used ++ rest = cs at h
  induction h generalizing used with
  | nil =>
    obtain rfl : used = [] := by simpa using hcs
    simp
  | @cons o gap lexeme piece mid rest kind ts hgap hread hscans ih =>
    obtain ⟨used', rfl⟩ := hscans.suffix
    have hused : used = gap ++ piece ++ used' := by
      rw [← List.append_assoc] at hcs
      exact List.append_cancel_right hcs
    subst hused
    rcases List.eq_nil_or_concat used' with rfl | ⟨used', c, rfl⟩
    · have hkind : kind ≠ .comment := hplain _ List.mem_cons_self
      have hlast := hread.getLast?_ne_quote hkind hrest
      rw [List.append_nil, List.getLast?_append_of_ne_nil _ hread.piece_ne_nil]
      exact hlast
    · have ih := ih (fun t ht => hplain t (by simp [ht])) hrest rfl
      simpa using ih

theorem joinTokens_getLast (apart : Bool) (ts : List Token) (t : Token) :
    ∃ text, joinTokens apart (ts ++ [t]) = text ++ t.typeText := by
  induction ts generalizing apart with
  | nil => exact ⟨if apart && t.kind.isWord then " " else "", by simp [joinTokens]⟩
  | cons u ts ih =>
    obtain ⟨text, htext⟩ := ih u.parts
    exact ⟨_, by rw [List.cons_append, joinTokens, htext, ← String.append_assoc]⟩

/-- A string is closed, or it takes all of the text. -/
theorem Reads.string_cases {lexeme piece rest : List Char} (h : Reads .string lexeme piece rest) :
    piece = '\'' :: lexeme ++ ['\''] ∨ piece = '\'' :: lexeme ∧ rest = [] := by
  generalize hkind : TokenKind.string = kind at h
  cases h with
  | word =>
    unfold wordKind at hkind
    split at hkind <;> cases hkind
  | string => exact .inl rfl
  | openString => exact .inr ⟨rfl, rfl⟩
  | _ => cases hkind

/-- If a text is put together from its own tokens, then the string at its end is
    closed: an open one would give the text one more quote than it has. -/
theorem closed_of_tokensText {cs : List Char} {ts : List Token} (h : Scans 0 cs ts [])
    (hplain : ∀ t ∈ ts, t.kind ≠ .comment) (htext : (tokensText ts).toList = cs) :
    ∀ t ∈ ts.getLast?, t.Closed := by
  intro t ht
  obtain ⟨init, rfl⟩ := List.getLast?_eq_some_iff.1 ht
  refine ⟨hplain t (by simp), fun hstring => ?_⟩
  obtain ⟨used, mid, rfl, hinit, hlast⟩ := h.of_append
  obtain ⟨text, hjoin⟩ := joinTokens_getLast false init t
  cases hlast with
  | @cons _ gap lexeme piece _ _ kind _ hgap hread hnil =>
    obtain rfl := hnil.eq_of_nil
    obtain rfl : kind = .string := hstring
    rcases hread.string_cases with rfl | ⟨rfl, -⟩
    · have hquote : '\''.utf8Size = 1 := rfl
      simp only [Token.ofPiece, String.toList_ofList, byteLength_append, byteLength_cons,
        byteLength_nil, hquote]
      omega
    · exfalso
      have hquote : (used ++ gap).getLast? = some '\'' := by
        have hsplit : (text.toList ++ ['\'']) ++ (lexeme ++ ['\'']) =
            (used ++ gap) ++ '\'' :: lexeme := by
          rw [tokensText, hjoin] at htext
          simpa [Token.typeText, Token.ofPiece] using htext
        rw [← (List.append_inj' hsplit (by simp)).1]
        simp
      rcases List.eq_nil_or_concat gap with rfl | ⟨gap, c, rfl⟩
      · rw [List.append_nil] at hquote
        exact hinit.getLast?_ne_quote (fun u hu => hplain u (by simp [hu])) rfl hquote
      · have hc := hgap c (by simp)
        obtain rfl : c = '\'' := by simpa using hquote
        cases hc

/-- **A text that is put together from its own tokens** spells them. -/
theorem spells_text {text : String} {ts : List Token} (h : tokens? text.toUTF8 = some ts)
    (hplain : ∀ t ∈ ts, t.kind ≠ .comment) (htext : tokensText ts = text) :
    Spells text.toList (ts.map Token.word) := by
  obtain ⟨gap, hgap, hscans⟩ := scans_of_tokens? h
  intro o more hmore
  have hend : gap ≠ [] ∨ (∀ t ∈ (ts.map (·.shift o)).getLast?, t.Closed) ∧
      ∀ c ∈ more.head?, isSeparator c = true := by
    refine Classical.or_iff_not_imp_left.2 fun hnil => ⟨?_, hmore⟩
    obtain rfl := Classical.not_not.1 hnil
    intro t ht
    rw [List.getLast?_map] at ht
    obtain ⟨u, hu, rfl⟩ := Option.map_eq_some_iff.1 ht
    have hclosed := closed_of_tokensText hscans hplain (by rw [htext]) u hu
    refine ⟨hclosed.1, fun hkind => ?_⟩
    have hstop := hclosed.2 hkind
    simp only [Token.shift]
    omega
  refine ⟨ts.map (·.shift o), gap, hgap, ?_, ?_⟩
  · have hshift := hscans.shift o
    rw [Nat.zero_add] at hshift
    exact hshift.extend hend
  · simp [Token.word]

end PackageDoc
