/-
  Tokens that are told apart in their text.

  The text of a type or a value has a space only before a word that follows a word
  or a closing parenthesis.  Elsewhere a token stands right behind the one before it,
  and there are tokens that fuse (`Token.Fuses`): `-` and `-` open a comment, `<` and
  `=` are one operator, and a number of another script prolongs a name.  A name that
  was written with a dotted capital I is no name any more, since its small form has
  the dot as a character of its own.  Nothing else goes wrong.

  Main statement: `tokens?_tokensText_iff`.
-/
import Mathlib.Tactic.ByContra
import Mathlib.Tactic.FinCases
import PackageDoc.Parser.TypeText
import PackageDoc.Proofs.Text.LetterCase
import PackageDoc.Proofs.Token.Scan

namespace PackageDoc

open Text

/-! ## Tokens that fuse -/

/-- Whether a token is a name or a reserved word. -/
def TokenKind.isName : TokenKind → Bool
  | ident | keyword _ => true
  | _ => false

theorem TokenKind.isWord_of_isName {kind : TokenKind} (h : kind.isName = true) :
    kind.isWord = true := by
  cases kind <;> first | rfl | cases h

/-- The symbols that make up another one, or open a comment, if the second follows
    the first without a space. -/
def fusingSymbols : List (String × String) :=
  [("-", "-"), ("/", "*"), ("/", "**"), ("*", "*"), ("*", "**"), ("<", "="), ("<", ">"),
    ("<", ">="), (">", "="), (":", "="), (".", "."), (".", ".."), ("!", "=")]

/-- Two tokens that are not told apart if the second follows the first without a
    space: two symbols, or a name and a character that prolongs it. -/
def Token.Fuses (t u : Token) : Prop :=
  (t.typeText, u.typeText) ∈ fusingSymbols ∨
    t.kind.isName = true ∧ u.kind = .illegal ∧ ∃ c ∈ u.lexeme.toList, isNameChar c = true

instance (t u : Token) : Decidable (t.Fuses u) := inferInstanceAs (Decidable (_ ∨ _))

/-- Tokens whose text tells them apart: no two neighbours fuse, and no name holds the
    dot of a dotted capital I. -/
def Separable (ts : List Token) : Prop :=
  ts.IsChain (fun t u => ¬ t.Fuses u) ∧
    ∀ t ∈ ts, t.kind.isName = true → '\u0307' ∉ t.lexeme.toList

instance (ts : List Token) : Decidable (Separable ts) := inferInstanceAs (Decidable (_ ∧ _))

/-! ## Words -/

theorem isName_wordKind (s : String) : (wordKind s).isName = true := by
  unfold wordKind
  split <;> rfl

theorem not_dotted_wordLexeme (w : List Char) : '\u0130' ∉ wordLexeme w := by
  intro h
  unfold wordLexeme at h
  split at h
  · exact not_dotted_of_mem_lowercase h rfl
  · rename_i hcapital
    have hupper : isUppercase '\u0130' = true := by decide +kernel
    exact hcapital (List.any_eq_true.2 ⟨_, h, hupper⟩)

theorem length_le_wordLexeme (w : List Char) : w.length ≤ (wordLexeme w).length := by
  unfold wordLexeme
  split
  · exact length_le_lowercase w
  · exact Nat.le_refl _

theorem head_wordLexeme {c : Char} (hc : isNameStart c = true) (cs : List Char) :
    ∃ d ds, wordLexeme (c :: cs) = d :: ds ∧ isNameStart d = true := by
  unfold wordLexeme
  split
  · obtain ⟨d, ds, hds, hd⟩ := head_lowercase c cs
    refine ⟨d, ds, hds, ?_⟩
    rcases hd with rfl | hd
    · exact hc
    · simp [isNameStart, hd]
  · exact ⟨c, cs, rfl, hc⟩

theorem isNameChar_of_isAlphabetic {c : Char} (h : isAlphabetic c = true) :
    isNameChar c = true := by
  simp [isNameChar, isAlphanumeric, h]

theorem not_isNameChar_dot : isNameChar '\u0307' = false := by decide +kernel

section
variable {w : List Char} (hw : ∀ c ∈ w, isNameChar c = true)

include hw

/-- Without a dotted capital I, the characters of a lexeme are those of a name, and
    it is its own lexeme. -/
theorem wordLexeme_of_not_dotted (h : '\u0130' ∉ w) :
    (∀ d ∈ wordLexeme w, isNameChar d = true) ∧ wordLexeme (wordLexeme w) = wordLexeme w := by
  by_cases hcapital : w.any isUppercase = true
  · have hlexeme : wordLexeme w = lowercase w := if_pos hcapital
    rw [hlexeme]
    constructor
    · intro d hd
      rcases (settled_of_mem_lowercase h hd).2 with hd | hd
      · exact hw d hd
      · exact isNameChar_of_isAlphabetic hd
    · have hsettled := lowercase_settled fun d hd => (settled_of_mem_lowercase h hd).1
      unfold wordLexeme
      split
      · exact hsettled
      · rfl
  · have hlexeme : wordLexeme w = w := if_neg hcapital
    rw [hlexeme]
    exact ⟨hw, hlexeme⟩

/-- The dot in a lexeme is that of a dotted capital I. -/
theorem dot_mem_wordLexeme : '\u0307' ∈ wordLexeme w ↔ '\u0130' ∈ w := by
  constructor
  · intro hdot
    by_contra h
    have hname := (wordLexeme_of_not_dotted hw h).1 _ hdot
    rw [not_isNameChar_dot] at hname
    cases hname
  · intro h
    have hupper : isUppercase '\u0130' = true := by decide +kernel
    have hlexeme : wordLexeme w = lowercase w := if_pos (List.any_eq_true.2 ⟨_, h, hupper⟩)
    rw [hlexeme]
    exact dot_mem_lowercase h

end

/-- A word that is read from its own lexeme is the lexeme.  It is not longer, as
    lowercasing does not shorten a word, and it stops in the lexeme only at a dot; but
    then the word would hold a dotted capital I. -/
theorem eq_wordLexeme_of_append {w mid more : List Char} (hw : ∀ c ∈ w, isNameChar c = true)
    (hmid : ∀ d ∈ mid.head?, isNameChar d = false) (htext : w ++ mid = wordLexeme w ++ more) :
    w = wordLexeme w ∧ '\u0307' ∉ wordLexeme w := by
  obtain ⟨tail, htail, hmid'⟩ : ∃ tail, wordLexeme w = w ++ tail ∧ mid = tail ++ more := by
    rcases List.append_eq_append_iff.1 htext with ⟨tail, h₁, h₂⟩ | ⟨tail, h₁, h₂⟩
    · exact ⟨tail, h₁, h₂⟩
    · have hlength := congrArg List.length h₁
      have hle := length_le_wordLexeme w
      rw [List.length_append] at hlength
      have hnil : tail = [] := List.length_eq_zero_iff.1 (by omega)
      exact ⟨[], by simpa [hnil] using h₁.symm, by simpa [hnil] using h₂.symm⟩
  have hdot : '\u0307' ∉ wordLexeme w := by
    rw [dot_mem_wordLexeme hw]
    intro hdotted
    have hmem : '\u0130' ∈ wordLexeme w := by
      rw [htail]
      exact List.mem_append_left _ hdotted
    exact not_dotted_wordLexeme w hmem
  refine ⟨?_, hdot⟩
  have hchars := (wordLexeme_of_not_dotted hw ((dot_mem_wordLexeme hw).not.1 hdot)).1
  cases tail with
  | nil => simpa using htail.symm
  | cons d tail =>
    have hd := hchars d (by simp [htail])
    rw [hmid d (by simp [hmid'])] at hd
    cases hd

/-! ## The text of a token -/

/-- How a token is spelled in a text. -/
def spelled (kind : TokenKind) (lexeme : List Char) : List Char :=
  if kind = .string then '\'' :: lexeme ++ ['\''] else lexeme

theorem Token.toList_typeText (t : Token) :
    t.typeText.toList = spelled t.kind t.lexeme.toList := by
  unfold Token.typeText spelled
  split <;> simp

/-- Whether a character right behind a token prolongs it. -/
def prolongs (kind : TokenKind) (lexeme : List Char) (d : Char) : Bool :=
  if kind.isName then isNameChar d
  else if kind = .number then d.isDigit
  else if kind = .string then d == '\''
  else match lexeme with
    | [a] => pairs a d
    | _ => false

theorem spelled_of_isName {kind : TokenKind} (h : kind.isName = true) (lexeme : List Char) :
    spelled kind lexeme = lexeme := by
  rw [spelled, if_neg]
  rintro rfl
  cases h

theorem prolongs_of_isName {kind : TokenKind} (h : kind.isName = true) (lexeme : List Char)
    (d : Char) : prolongs kind lexeme d = isNameChar d := by
  unfold prolongs
  rw [if_pos h]

theorem prolongs_space {kind : TokenKind} {lexeme : List Char} :
    prolongs kind lexeme ' ' = false := by
  obtain ⟨-, hname, hdigit, -, hpairs⟩ := isSeparator_class (show isSeparator ' ' = true from rfl)
  unfold prolongs
  split
  · exact hname
  · split
    · exact hdigit
    · split
      · rfl
      · split
        · exact hpairs _
        · rfl

namespace Reads

variable {kind : TokenKind} {lexeme piece rest : List Char}

/-- What follows a token does not prolong it. -/
theorem not_prolonged (h : Reads kind lexeme piece rest) (hk : kind ≠ .comment) :
    ∀ d ∈ rest.head?, prolongs kind lexeme d = false := by
  intro d hd
  cases h with
  | word _ _ hr =>
    rw [prolongs_of_isName (isName_wordKind _)]
    exact hr d hd
  | number _ _ _ hr => exact hr d hd
  | string _ hr => simpa [prolongs, TokenKind.isName] using hr d hd
  | openString => cases hd
  | lineComment => exact absurd rfl hk
  | blockComment => exact absurd rfl hk
  | pair => rfl
  | single _ hr => exact hr d hd
  | illegal _ _ _ _ _ _ hr => exact hr d hd

/-- A token is read from its own text, unless a name holds a dot. -/
theorem reads_spelled (h : Reads kind lexeme piece rest) (hk : kind ≠ .comment)
    (hdot : kind.isName = true → '\u0307' ∉ lexeme) {rest' : List Char}
    (hr : ∀ d ∈ rest'.head?, prolongs kind lexeme d = false) :
    Reads kind lexeme (spelled kind lexeme) rest' := by
  cases h with
  | @word c cs _ hc hcs _ =>
    have hname := isName_wordKind (String.ofList (wordLexeme (c :: cs)))
    have hw : ∀ d ∈ c :: cs, isNameChar d = true :=
      List.forall_mem_cons.2 ⟨isNameChar_of_isNameStart hc, hcs⟩
    have hdotted := (dot_mem_wordLexeme hw).not.1 (hdot hname)
    obtain ⟨hchars, hlexeme⟩ := wordLexeme_of_not_dotted hw hdotted
    obtain ⟨d, ds, hds, hd⟩ := head_wordLexeme hc cs
    rw [spelled_of_isName hname]
    rw [hds] at hchars hlexeme hname hr ⊢
    have hread : Reads _ (wordLexeme (d :: ds)) (d :: ds) rest' :=
      .word hd (fun e he => hchars e (by simp [he])) fun e he => by
        rw [← hr e he, prolongs_of_isName hname]
    rwa [hlexeme] at hread
  | number hc hd hcs _ => exact .number hc hd hcs hr
  | string hq _ => exact .string hq (by simpa [prolongs, TokenKind.isName] using hr)
  | openString hq => exact .string hq (by simpa [prolongs, TokenKind.isName] using hr)
  | lineComment => exact absurd rfl hk
  | blockComment => exact absurd rfl hk
  | pair hp => exact .pair hp
  | single ho _ => exact .single ho hr
  | illegal ho hq hb hs hd hsp _ => exact .illegal ho hq hb hs hd hsp hr

/-- **What is read as a token from its own text** is all of that text, and then no name
    holds a dot. -/
theorem eq_spelled (h : Reads kind lexeme piece rest) (hk : kind ≠ .comment) {more : List Char}
    (htext : piece ++ rest = spelled kind lexeme ++ more) :
    piece = spelled kind lexeme ∧ (kind.isName = true → '\u0307' ∉ lexeme) := by
  cases h with
  | @word c cs _ hc hcs hr =>
    have hw : ∀ d ∈ c :: cs, isNameChar d = true :=
      List.forall_mem_cons.2 ⟨isNameChar_of_isNameStart hc, hcs⟩
    rw [spelled_of_isName (isName_wordKind _)] at htext ⊢
    obtain ⟨hpiece, hdot⟩ := eq_wordLexeme_of_append hw hr htext
    exact ⟨hpiece, fun _ => hdot⟩
  | string => exact ⟨rfl, nofun⟩
  | openString =>
    have hlength := congrArg List.length htext
    simp [spelled] at hlength
  | lineComment => exact absurd rfl hk
  | blockComment => exact absurd rfl hk
  | number => exact ⟨rfl, nofun⟩
  | pair => exact ⟨rfl, nofun⟩
  | single => exact ⟨rfl, nofun⟩
  | illegal => exact ⟨rfl, nofun⟩

end Reads

/-! ## Neighbours -/

/-- How the text of a token starts, by its kind. -/
inductive Opens : TokenKind → List Char → Prop where
  | name {kind : TokenKind} {c : Char} {cs : List Char} : kind.isName = true →
      isNameStart c = true → Opens kind (c :: cs)
  | number {c : Char} {cs : List Char} : c.isDigit = true → Opens .number (c :: cs)
  | string {cs : List Char} : Opens .string ('\'' :: cs)
  | pair {a b : Char} {o : Operator} : pairOperator? a b = some o → Opens (.op o) [a, b]
  | single {a : Char} {o : Operator} : operator? [a] = some (o, 1) → Opens (.op o) [a]
  | illegal {a : Char} : a ≠ '\'' → a ≠ '|' → isNameStart a = false → a.isDigit = false →
      isSpacing a = false → Opens .illegal [a]

theorem Reads.opens {kind : TokenKind} {lexeme piece rest : List Char}
    (h : Reads kind lexeme piece rest) (hk : kind ≠ .comment) :
    Opens kind (spelled kind lexeme) := by
  cases h with
  | @word c cs _ hc _ _ =>
    obtain ⟨d, ds, hds, hd⟩ := head_wordLexeme hc cs
    rw [spelled_of_isName (isName_wordKind _), hds]
    exact .name (isName_wordKind _) hd
  | number _ hd _ _ => exact .number hd
  | string => exact .string
  | openString => exact .string
  | lineComment => exact absurd rfl hk
  | blockComment => exact absurd rfl hk
  | pair hp => exact .pair hp
  | single ho _ => exact .single ho
  | illegal _ hq hb hc hd hs _ => exact .illegal hq hb hc hd hs

/-- Whether a character starts a word: a name, a number or a string. -/
def startsWord (c : Char) : Bool := isNameStart c || c.isDigit || c == '\''

namespace Opens

variable {kind : TokenKind} {d : Char} {ds : List Char}

theorem ne_nil {text : List Char} (h : Opens kind text) : text ≠ [] := by
  cases h <;> simp

/-- The first character of a token tells whether it is a word. -/
theorem isWord_eq (h : Opens kind (d :: ds)) : kind.isWord = startsWord d := by
  cases h with
  | name hname hc => simp [TokenKind.isWord_of_isName hname, startsWord, hc]
  | number hc => simp [TokenKind.isWord, startsWord, hc]
  | string => rfl
  | pair hp =>
    obtain ⟨hq, -, hc, hd, -⟩ := pairOperator?_class hp
    simp [TokenKind.isWord, startsWord, hq, hc, hd]
  | single ho =>
    obtain ⟨hq, -, hc, hd, -⟩ := operatorChars_class (mem_of_operator?_singleton ho).1
    simp [TokenKind.isWord, startsWord, hq, hc, hd]
  | illegal hq _ hc hd _ => simp [TokenKind.isWord, startsWord, hq, hc, hd]

theorem not_spacing {text : List Char} (h : Opens kind text) :
    ∀ d ∈ text.head?, isSpacing d = false := by
  intro d hhead
  obtain ⟨ds, rfl⟩ := List.head?_eq_some_iff.1 hhead
  cases h with
  | name _ hc | number hc =>
    by_contra hspacing
    rw [Bool.not_eq_false] at hspacing
    obtain ⟨hstart, -, hdigit, -⟩ := isSeparator_class (isSeparator_of_isSpacing hspacing)
    simp [hstart, hdigit] at hc
  | string => rfl
  | pair hp => exact (pairOperator?_class hp).2.2.2.2.1
  | single ho => exact (operatorChars_class (mem_of_operator?_singleton ho).1).2.2.2.2
  | illegal _ _ _ _ hs => exact hs

theorem ne_bar (h : Opens kind [d]) : d ≠ '|' := by
  rintro rfl
  cases h with
  | name _ hc => exact absurd hc (by decide)
  | number hc => exact absurd hc (by decide)
  | single ho => exact absurd (mem_of_operator?_singleton ho).1 (by decide)
  | illegal _ hb => exact hb rfl

/-- A symbol that can go on a name is an illegal character. -/
theorem illegal_of_isNameChar (h : Opens kind (d :: ds)) (hword : kind.isWord = false)
    (hd : isNameChar d = true) : kind = .illegal := by
  have hsymbols : ('|' :: '!' :: operatorChars).all (!isNameChar ·) = true := by decide +kernel
  have hnot : d ∉ '|' :: '!' :: operatorChars := by
    intro hmem
    have hsymbol := List.all_eq_true.1 hsymbols d hmem
    simp [hd] at hsymbol
  cases h with
  | name hname => simp [TokenKind.isWord_of_isName hname] at hword
  | number => cases hword
  | string => cases hword
  | pair hp =>
    refine absurd ?_ hnot
    unfold pairOperator? at hp
    split at hp <;> first | decide | cases hp
  | single ho =>
    refine absurd ?_ hnot
    simp [(mem_of_operator?_singleton ho).1]
  | illegal => rfl

/-- The tokens that start with the second character of an operator or of the mark of a
    comment. -/
theorem symbol_of_head (h : Opens kind (d :: ds)) (hd : d ∈ ['*', '>', '=', '.', '-']) :
    ds = [] ∨ (d, ds) ∈ [('*', ['*']), ('>', ['=']), ('.', ['.'])] := by
  have hword : kind.isWord = false := by
    rw [h.isWord_eq]
    fin_cases hd <;> rfl
  cases h with
  | name hname => simp [TokenKind.isWord_of_isName hname] at hword
  | number => cases hword
  | string => cases hword
  | pair hp =>
    right
    unfold pairOperator? at hp
    split at hp <;> first | cases hp; done | (revert hd; decide)
  | single => exact .inl rfl
  | illegal => exact .inl rfl

end Opens

/-- The pairs of characters that make up an operator or open a comment. -/
theorem mem_of_pairs {a d : Char} (h : pairs a d = true) :
    (a, d) ∈ [('|', '|'), ('*', '*'), ('<', '>'), ('!', '='), ('<', '='), ('>', '='), (':', '='),
      ('.', '.'), ('-', '-'), ('/', '*')] := by
  simp only [pairs, Bool.or_eq_true, Bool.and_eq_true, beq_iff_eq] at h
  rcases h with (h | ⟨rfl, rfl⟩) | ⟨rfl, rfl⟩
  · obtain ⟨o, ho⟩ := Option.isSome_iff_exists.1 h
    unfold pairOperator? at ho
    split at ho <;> first | decide | cases ho
  · decide
  · decide

/-- What can prolong a token. -/
theorem prolongs_cases {kind : TokenKind} {lexeme : List Char} {d : Char}
    (h : prolongs kind lexeme d = true) :
    kind.isName = true ∧ isNameChar d = true ∨
      kind.isWord = true ∧ (d.isDigit = true ∨ d = '\'') ∨
      kind.isWord = false ∧ ∃ a, lexeme = [a] ∧ pairs a d = true := by
  cases kind with
  | ident | keyword k => exact .inl ⟨rfl, h⟩
  | number => exact .inr (.inl ⟨rfl, .inl h⟩)
  | string => exact .inr (.inl ⟨rfl, .inr (beq_iff_eq.1 h)⟩)
  | eof | comment | illegal | op o =>
    match lexeme, h with
    | [a], h => exact .inr (.inr ⟨rfl, a, rfl, h⟩)

theorem prolongs_symbol {kind : TokenKind} (h : kind.isWord = false) (a d : Char) :
    prolongs kind [a] d = pairs a d := by
  cases kind <;> first | rfl | cases h

theorem spelled_symbol {kind : TokenKind} (h : kind.isWord = false) (lexeme : List Char) :
    spelled kind lexeme = lexeme := by
  rw [spelled, if_neg]
  rintro rfl
  cases h

/-- The first of two symbols that fuse is one character, which the second one
    prolongs; both are no words. -/
theorem pairs_of_mem_fusingSymbols {s s' : String} (h : (s, s') ∈ fusingSymbols) :
    ∃ a d ds, s.toList = [a] ∧ s'.toList = d :: ds ∧ pairs a d = true ∧
      startsWord a = false ∧ startsWord d = false := by
  simp only [fusingSymbols, List.mem_cons, List.not_mem_nil, or_false, Prod.mk.injEq] at h
  rcases h with h | h | h | h | h | h | h | h | h | h | h | h | h
  all_goals
    obtain ⟨rfl, rfl⟩ := h
    exact ⟨_, _, _, rfl, rfl, rfl, rfl, rfl⟩

/-- A symbol and another one that prolongs it fuse. -/
theorem mem_fusingSymbols {s s' : String} {a d : Char} {ds : List Char} {kind : TokenKind}
    (hs : s.toList = [a]) (hs' : s'.toList = d :: ds) (ha : a ≠ '|') (hd : Opens kind (d :: ds))
    (h : pairs a d = true) : (s, s') ∈ fusingSymbols := by
  rw [← String.ofList_toList (s := s), ← String.ofList_toList (s := s'), hs, hs']
  have hmem := mem_of_pairs h
  simp only [List.mem_cons, List.not_mem_nil, or_false, Prod.mk.injEq] at hmem
  rcases hmem with hmem | hmem | hmem | hmem | hmem | hmem | hmem | hmem | hmem | hmem
  all_goals
    obtain ⟨rfl, rfl⟩ := hmem
  · exact absurd rfl ha
  all_goals
    rcases hd.symbol_of_head (by decide) with rfl | hds
    · decide
    · simp only [List.mem_cons, List.not_mem_nil, or_false, Prod.mk.injEq] at hds
      rcases hds with ⟨h, rfl⟩ | ⟨h, rfl⟩ | ⟨h, rfl⟩
      all_goals first | decide | (revert h; decide)

section
variable {t u : Token} {d : Char} {ds : List Char} (ht : Opens t.kind t.typeText.toList)
  (hu : Opens u.kind (d :: ds)) (htext : u.typeText.toList = d :: ds)

include ht hu htext

/-- Tokens that fuse are not set apart, and the second prolongs the first. -/
theorem Token.Fuses.prolonged (h : t.Fuses u) :
    (t.parts && u.kind.isWord) = false ∧ prolongs t.kind t.lexeme.toList d = true := by
  rcases h with hsymbols | ⟨hname, hillegal, c, hc, hchar⟩
  · obtain ⟨a, d', ds', hta, hud, hpairs, ha, hd⟩ := pairs_of_mem_fusingSymbols hsymbols
    obtain ⟨rfl, rfl⟩ : d = d' ∧ ds = ds' := by simpa [htext] using hud
    rw [hta] at ht
    have hword : t.kind.isWord = false := ht.isWord_eq.trans ha
    have hword' : u.kind.isWord = false := hu.isWord_eq.trans hd
    rw [toList_typeText, spelled_symbol hword] at hta
    rw [hta, prolongs_symbol hword]
    exact ⟨by simp [hword'], hpairs⟩
  · have hword : u.kind.isWord = false := by rw [hillegal]; rfl
    rw [toList_typeText, spelled_symbol hword] at htext
    rw [htext] at hc
    rw [hillegal] at hu
    rw [prolongs_of_isName hname]
    cases hu with
    | name hname' => cases hname'
    | illegal => exact ⟨by simp [hword], by rwa [List.mem_singleton.1 hc] at hchar⟩

/-- A token that prolongs the one before it, and is not set apart from it, fuses with
    it.  A word is set apart from a word, so only symbols are left: one that goes on a
    name is illegal, and one that goes on a symbol is in the list. -/
theorem Token.fuses_of_prolonged (hglued : (t.parts && u.kind.isWord) = false)
    (hprolongs : prolongs t.kind t.lexeme.toList d = true) : t.Fuses u := by
  rcases prolongs_cases hprolongs with ⟨hname, hd⟩ | ⟨hword, hd⟩ | ⟨hword, a, ha, hpairs⟩
  · have hword : u.kind.isWord = false := by
      simpa [Token.parts, TokenKind.isWord_of_isName hname] using hglued
    refine .inr ⟨hname, hu.illegal_of_isNameChar hword hd, d, ?_, hd⟩
    rw [toList_typeText, spelled_symbol hword] at htext
    simp [htext]
  · have hword' : u.kind.isWord = true := by
      rw [hu.isWord_eq, startsWord]
      rcases hd with hd | rfl
      · simp [hd]
      · rfl
    simp [Token.parts, hword, hword'] at hglued
  · rw [toList_typeText, spelled_symbol hword, ha] at ht
    have htext' : t.typeText.toList = [a] := by rw [toList_typeText, spelled_symbol hword, ha]
    exact .inl (mem_fusingSymbols htext' htext ht.ne_bar hu hpairs)

/-- **Two tokens fuse** exactly if no space comes between them and the second prolongs
    the first. -/
theorem Token.fuses_iff :
    t.Fuses u ↔ (t.parts && u.kind.isWord) = false ∧ prolongs t.kind t.lexeme.toList d = true :=
  ⟨fun h => h.prolonged ht hu htext, fun h => fuses_of_prolonged ht hu htext h.1 h.2⟩

end

/-! ## Texts of tokens -/

/-- A token that a scan reads, and no comment. -/
def Token.IsRead (t : Token) : Prop :=
  t.kind ≠ .comment ∧ ∃ piece, Reads t.kind t.lexeme.toList piece []

theorem Token.IsRead.opens {t : Token} (h : t.IsRead) : Opens t.kind t.typeText.toList := by
  obtain ⟨hk, piece, hread⟩ := h
  rw [toList_typeText]
  exact hread.opens hk

/-- The tokens of a source are read. -/
theorem isRead_of_tokens? {source : ByteArray} {ts : List Token} (h : tokens? source = some ts)
    {t : Token} (ht : t ∈ ts) (hk : t.kind ≠ .comment) : t.IsRead := by
  obtain ⟨text, -, rfl, -⟩ := tokens?_eq_some.1 h
  obtain ⟨used, rest, passed, -, hscans, -⟩ := scans_of_scanText text
  obtain ⟨m, lexeme, piece, mid, -, hread, hpiece⟩ := hscans.reads_of_mem ht
  have hlexeme : t.lexeme.toList = lexeme := by
    rw [hpiece]
    simp [Token.ofPiece]
  rw [← hlexeme] at hread
  exact ⟨hk, piece, hread.cut⟩

theorem separable_cons {t : Token} {ts : List Token} :
    Separable (t :: ts) ↔ (∀ u ∈ ts.head?, ¬ t.Fuses u) ∧
      (t.kind.isName = true → '\u0307' ∉ t.lexeme.toList) ∧ Separable ts := by
  unfold Separable
  rw [List.forall_mem_cons]
  cases ts with
  | nil => simp
  | cons u ts =>
    simp only [List.isChain_cons_cons, List.head?_cons, Option.mem_some_iff, forall_eq']
    tauto

/-- The space in front of a token. -/
def spaceBefore (apart : Bool) (t : Token) : List Char :=
  if apart && t.kind.isWord then [' '] else []

theorem spacing_spaceBefore (apart : Bool) (t : Token) : Spacing (spaceBefore apart t) := by
  unfold spaceBefore
  split <;> simp [Spacing, isSpacing]

theorem toList_joinTokens_cons (apart : Bool) (t : Token) (ts : List Token) :
    (joinTokens apart (t :: ts)).toList =
      spaceBefore apart t ++ t.typeText.toList ++ (joinTokens t.parts ts).toList := by
  rw [joinTokens, spaceBefore]
  split <;> simp

/-- What follows a token in a text prolongs it exactly if the next token fuses with
    it. -/
theorem not_prolonged_joinTokens_iff {t : Token} {ts : List Token} (ht : t.IsRead)
    (hts : ∀ u ∈ ts, u.IsRead) :
    (∀ d ∈ (joinTokens t.parts ts).toList.head?, prolongs t.kind t.lexeme.toList d = false) ↔
      ∀ u ∈ ts.head?, ¬ t.Fuses u := by
  cases ts with
  | nil => simp [joinTokens]
  | cons u ts =>
    have hu := (hts u (by simp)).opens
    rw [toList_joinTokens_cons, spaceBefore]
    cases htext : u.typeText.toList with
    | nil => exact absurd htext hu.ne_nil
    | cons d ds =>
      rw [htext] at hu
      cases hglued : t.parts && u.kind.isWord with
      | true => simp [prolongs_space, Token.fuses_iff ht.opens hu htext, hglued]
      | false => simp [Token.fuses_iff ht.opens hu htext, hglued]

/-- The text of tokens that are told apart has these tokens. -/
theorem scans_joinTokens {ts : List Token} (h : ∀ t ∈ ts, t.IsRead) (hts : Separable ts)
    (apart : Bool) (o : Nat) :
    ∃ us, Scans o (joinTokens apart ts).toList us [] ∧ us.map Token.word = ts.map Token.word := by
  induction ts generalizing apart o with
  | nil => exact ⟨[], .nil, rfl⟩
  | cons t ts ih =>
    obtain ⟨ht, hmore⟩ := List.forall_mem_cons.1 h
    obtain ⟨hfuses, hdot, hsep⟩ := separable_cons.1 hts
    have ⟨hk, piece, hread⟩ := ht
    have hnext := hread.reads_spelled hk hdot ((not_prolonged_joinTokens_iff ht hmore).2 hfuses)
    rw [← Token.toList_typeText] at hnext
    obtain ⟨us, hscans, hwords⟩ := ih hmore hsep t.parts _
    rw [toList_joinTokens_cons]
    refine ⟨_, .cons (spacing_spaceBefore apart t) hnext hscans, ?_⟩
    simp [hwords, Token.word, Token.ofPiece]

/-- Texts that differ only in the spacing at their front go on alike. -/
theorem Spacing.eq_of_append_eq {gap gap' cs ds : List Char} (hgap : Spacing gap)
    (hgap' : Spacing gap') (hcs : ∀ c ∈ cs.head?, isSpacing c = false)
    (hds : ∀ d ∈ ds.head?, isSpacing d = false) (h : gap ++ cs = gap' ++ ds) : cs = ds := by
  have hdrop := congrArg (List.dropWhile isSpacing) h
  rwa [(takeWhile_append_stop _ _ hgap hcs).2, (takeWhile_append_stop _ _ hgap' hds).2] at hdrop

/-- Tokens are told apart if their text has them. -/
theorem separable_of_scans {ts us : List Token} {rest : List Char} {apart : Bool} {o : Nat}
    (h : ∀ t ∈ ts, t.IsRead) (hscans : Scans o (joinTokens apart ts).toList us rest)
    (hwords : us.map Token.word = ts.map Token.word) : Separable ts := by
  induction ts generalizing apart o us with
  | nil => exact ⟨.nil, by simp⟩
  | cons t ts ih =>
    obtain ⟨ht, hmore⟩ := List.forall_mem_cons.1 h
    rw [toList_joinTokens_cons] at hscans
    generalize htext : spaceBefore apart t ++ t.typeText.toList ++ (joinTokens t.parts ts).toList =
      text at hscans
    cases hscans with
    | nil => cases hwords
    | @cons _ gap lexeme piece mid _ kind us hgap hread hscans =>
      obtain ⟨⟨rfl, hlexeme⟩, hmap⟩ : (kind = t.kind ∧ String.ofList lexeme = t.lexeme) ∧
          us.map Token.word = ts.map Token.word := by
        simpa [Token.word, Token.ofPiece] using hwords
      obtain rfl : lexeme = t.lexeme.toList := by simp [← hlexeme]
      -- the spacing that the scan skips is the space in front of the token
      have hpiece : piece ++ mid = t.typeText.toList ++ (joinTokens t.parts ts).toList := by
        rw [List.append_assoc, List.append_assoc] at htext
        refine hgap.eq_of_append_eq (spacing_spaceBefore apart t) ?_ ?_ htext.symm
        · rw [List.head?_append_of_ne_nil _ hread.piece_ne_nil]
          exact hread.head_not_spacing
        · rw [List.head?_append_of_ne_nil _ ht.opens.ne_nil]
          exact ht.opens.not_spacing
      rw [Token.toList_typeText] at hpiece
      obtain ⟨hspelled, hdot⟩ := hread.eq_spelled ht.1 hpiece
      rw [hspelled] at hpiece
      obtain rfl := List.append_cancel_left hpiece
      refine separable_cons.2 ⟨?_, hdot, ih hmore hscans hmap⟩
      exact (not_prolonged_joinTokens_iff ht hmore).1 (hread.not_prolonged ht.1)

/-- **The text of some tokens has these tokens** exactly if it tells them apart. -/
theorem tokens?_tokensText_iff {ts : List Token} (h : ∀ t ∈ ts, t.IsRead)
    (hsize : (tokensText ts).toUTF8.size ≤ maxOffset) :
    (tokens? (tokensText ts).toUTF8).map (·.map Token.word) = some (ts.map Token.word) ↔
      Separable ts := by
  constructor
  · intro hwords
    obtain ⟨us, hus, hwords⟩ := Option.map_eq_some_iff.1 hwords
    obtain ⟨gap, -, hscans⟩ := scans_of_tokens? hus
    exact separable_of_scans h hscans hwords
  · intro hts
    obtain ⟨us, hscans, hwords⟩ := scans_joinTokens h hts false 0
    rw [String.toUTF8_eq_toByteArray, ← String.utf8Encode_toList, size_utf8Encode] at hsize
    obtain ⟨us', hus, htokens⟩ := tokens?_of_scans hscans (by simp [Spacing]) hsize
    rw [String.toUTF8_eq_toByteArray, ← String.utf8Encode_toList, tokensText, htokens,
      Option.map_some, ← hwords, hus]
    simp [Token.word, Function.comp_def]

end PackageDoc
