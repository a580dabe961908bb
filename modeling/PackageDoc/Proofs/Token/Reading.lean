/-
  The tokens that stand at the front of a text.

  `Reads kind lexeme piece rest` says without the scanner which pieces are
  tokens: a word, a number, a string, a comment, an operator or an illegal
  character, and that `rest` does not prolong it.

  * `Reads.reading` and `reads_of_reading`: these are the tokens that `reading`
    finds, and `reading_eq_fault` tells what it finds where there is no token;
  * `Reads.cut`, `Reads.lookahead`, `Reads.separated`: a token depends on no more
    than one character behind it, so it is found again when the text is cut
    there, goes on in another way, or goes on at all behind a separator.
-/
import Mathlib.Tactic.ByContra
import Mathlib.Tactic.FinCases
import PackageDoc.Token.Scanner

namespace PackageDoc

open Text

/-! ## Operators -/

/-- The operator that two characters make up. -/
def pairOperator? : Char → Char → Option Operator
  | '|', '|' => some .concat
  | '*', '*' => some .power
  | '<', '>' | '!', '=' => some .notEqual
  | '<', '=' => some .lessEqual
  | '>', '=' => some .greaterEqual
  | ':', '=' => some .assign
  | '.', '.' => some .range
  | _, _ => none

/-- The characters that are operators by themselves. -/
def operatorChars : List Char :=
  ['+', '-', '*', '/', '%', '=', '<', '>', '(', ')', '[', ']', ',', '.', ';', ':', '"', '$']

theorem operator?_singleton_eq_none {a : Char} : operator? [a] = none ↔ a ∉ operatorChars := by
  constructor
  · intro h ha
    fin_cases ha <;> simp [operator?] at h
  · intro h
    simp only [operatorChars, List.mem_cons, List.not_mem_nil, or_false, not_or] at h
    simp [operator?, h]

theorem mem_of_operator?_singleton {a : Char} {o : Operator} {n : Nat}
    (h : operator? [a] = some (o, n)) : a ∈ operatorChars ∧ n = 1 := by
  have ha : a ∈ operatorChars := by
    by_contra hn
    rw [operator?_singleton_eq_none.2 hn] at h
    simp at h
  refine ⟨ha, ?_⟩
  fin_cases ha <;> (simp only [operator?, Option.some.injEq, Prod.mk.injEq] at h; exact h.2.symm)

/-- An operator is that of two characters, or else that of the first one. -/
theorem operator?_cons_cons (a b : Char) (cs : List Char) :
    operator? (a :: b :: cs) = ((pairOperator? a b).map (·, 2)).or (operator? [a]) := by
  by_cases h : a ∈ ['|', '*', '<', '>', '!', ':', '.']
  · fin_cases h
    · by_cases hb : b = '|' <;> simp [operator?, pairOperator?, hb]
    · by_cases hb : b = '*' <;> simp [operator?, pairOperator?, hb]
    · by_cases hb : b = '>' <;> by_cases hb' : b = '=' <;>
        simp [operator?, pairOperator?, hb, hb']
    · by_cases hb : b = '=' <;> simp [operator?, pairOperator?, hb]
    · by_cases hb : b = '=' <;> simp [operator?, pairOperator?, hb]
    · by_cases hb : b = '=' <;> simp [operator?, pairOperator?, hb]
    · by_cases hb : b = '.' <;> simp [operator?, pairOperator?, hb]
  · simp only [List.mem_cons, List.not_mem_nil, or_false, not_or] at h
    have hp : pairOperator? a b = none := by
      unfold pairOperator?
      split <;> simp_all
    rw [hp]
    by_cases ha : a ∈ operatorChars
    · fin_cases ha <;> first | rfl | simp at h
    · have hnone := operator?_singleton_eq_none.2 ha
      simp only [operatorChars, List.mem_cons, List.not_mem_nil, or_false, not_or] at ha
      rw [hnone]
      simp [operator?, h, ha]

/-- Whether two characters make up an operator or open a comment. -/
def pairs (a b : Char) : Bool :=
  (pairOperator? a b).isSome || (a == '-' && b == '-') || (a == '/' && b == '*')

/-! ## The tokens -/

/-- Whether a text is the inside of a string: its quotes are written twice. -/
def Quoted (body : List Char) : Prop := splitString body = (body, [])

/-- Whether a text is the inside of a block comment, with its closing mark. -/
def Enclosed (body : List Char) : Prop := splitComment? body = some (body, [])

/-- `piece` is a token of the given kind and lexeme, and `rest`, which follows
    it, does not prolong it. -/
inductive Reads : TokenKind → List Char → List Char → List Char → Prop where
  | word {c : Char} {cs rest : List Char} : isNameStart c = true → (∀ d ∈ cs, isNameChar d = true) →
      (∀ d ∈ rest.head?, isNameChar d = false) →
      Reads (wordKind (String.ofList (wordLexeme (c :: cs)))) (wordLexeme (c :: cs)) (c :: cs) rest
  | number {c : Char} {cs rest : List Char} : isNameStart c = false → c.isDigit = true →
      (∀ d ∈ cs, d.isDigit = true) → (∀ d ∈ rest.head?, d.isDigit = false) →
      Reads .number (c :: cs) (c :: cs) rest
  | string {body rest : List Char} : Quoted body → (∀ d ∈ rest.head?, d ≠ '\'') →
      Reads .string body ('\'' :: body ++ ['\'']) rest
  /-- a string that is not closed takes all of the text -/
  | openString {body : List Char} : Quoted body → Reads .string body ('\'' :: body) []
  | lineComment {cs rest : List Char} : (∀ d ∈ cs, d ≠ '\n') → (∀ d ∈ rest.head?, d = '\n') →
      Reads .comment (lineCommentLexeme ('-' :: '-' :: cs)) ('-' :: '-' :: cs) rest
  | blockComment {body rest : List Char} : Enclosed body →
      Reads .comment (blockCommentLexeme ('/' :: '*' :: body)) ('/' :: '*' :: body) rest
  | pair {a b : Char} {o : Operator} {rest : List Char} : pairOperator? a b = some o →
      Reads (.op o) [a, b] [a, b] rest
  | single {a : Char} {o : Operator} {rest : List Char} : operator? [a] = some (o, 1) →
      (∀ d ∈ rest.head?, pairs a d = false) → Reads (.op o) [a] [a] rest
  | illegal {a : Char} {rest : List Char} : operator? [a] = none → a ≠ '\'' → a ≠ '|' →
      isNameStart a = false → a.isDigit = false → isSpacing a = false →
      (∀ d ∈ rest.head?, pairs a d = false) → Reads .illegal [a] [a] rest

/-! ## Pieces that end by themselves -/

theorem splitString_quoted {body : List Char} (h : Quoted body) {rest : List Char}
    (hr : ∀ d ∈ rest.head?, d ≠ '\'') :
    splitString (body ++ '\'' :: rest) = (body, '\'' :: rest) := by
  unfold Quoted at h
  fun_induction splitString body with
  | case1 =>
    cases rest with
    | nil => rfl
    | cons d ds =>
      have hd : d ≠ '\'' := hr d (by simp)
      simp [splitString, hd]
  | case2 cs b r hs ih => simp_all [splitString]
  | case3 cs hcs => simp at h
  | case4 c cs hc hc' b r hs ih =>
    simp_all [splitString]

theorem splitString_fst_quoted (cs : List Char) : Quoted (splitString cs).1 := by
  unfold Quoted
  fun_induction splitString cs with
  | case1 => rfl
  | case2 cs b r hs ih => simp_all [splitString]
  | case3 cs hcs => rfl
  | case4 c cs hc hc' b r hs ih => simp_all [splitString]

/-- What is left of a text behind a string starts with a single quote. -/
theorem splitString_snd {cs : List Char} {q : Char} {rest : List Char}
    (h : (splitString cs).2 = q :: rest) : q = '\'' ∧ ∀ d ∈ rest.head?, d ≠ '\'' := by
  fun_induction splitString cs with
  | case1 => simp at h
  | case2 cs b r hs ih => exact ih (by rw [hs]; exact h)
  | case3 cs hcs =>
    cases h
    refine ⟨rfl, ?_⟩
    rintro d hd rfl
    cases rest with
    | nil => simp at hd
    | cons e es =>
      simp only [List.head?_cons, Option.mem_some_iff] at hd
      subst hd
      exact hcs es rfl
  | case4 c cs hc hc' b r hs ih => exact ih (by rw [hs]; exact h)

theorem splitComment?_cons {c : Char} {cs : List Char}
    (h : ¬ (c = '*' ∧ cs.head? = some '/')) :
    splitComment? (c :: cs) = (splitComment? cs).map fun (body, rest) => (c :: body, rest) := by
  rw [splitComment?]
  rintro tail rfl rfl
  simp at h

theorem splitComment?_enclosed {body : List Char} (h : Enclosed body) (rest : List Char) :
    splitComment? (body ++ rest) = some (body, rest) := by
  unfold Enclosed at h
  induction body with
  | nil => simp [splitComment?] at h
  | cons c cs ih =>
    by_cases hc : c = '*' ∧ cs.head? = some '/'
    · obtain ⟨rfl, hcs⟩ := hc
      obtain ⟨ds, rfl⟩ := List.head?_eq_some_iff.1 hcs
      simp only [splitComment?, Option.some.injEq, Prod.mk.injEq, List.cons.injEq, true_and] at h
      rw [← h.1]
      rfl
    · rw [splitComment?_cons hc] at h
      obtain ⟨⟨b, r⟩, hb, hr⟩ := Option.map_eq_some_iff.1 h
      cases hr
      have hne : cs ≠ [] := by
        rintro rfl
        simp [splitComment?] at hb
      have hc' : ¬ (c = '*' ∧ (cs ++ rest).head? = some '/') := by
        rwa [List.head?_append_of_ne_nil _ hne]
      rw [List.cons_append, splitComment?_cons hc', ih hb]
      rfl

theorem enclosed_of_splitComment? {cs body rest : List Char}
    (h : splitComment? cs = some (body, rest)) : Enclosed body := by
  unfold Enclosed
  fun_induction splitComment? cs generalizing body with
  | case1 => simp at h
  | case2 cs => cases h; rfl
  | case3 c cs hc ih =>
    obtain ⟨⟨b, r⟩, hb, hr⟩ := Option.map_eq_some_iff.1 h
    cases hr
    have hcb : ¬ (c = '*' ∧ b.head? = some '/') := by
      rintro ⟨rfl, hbs⟩
      obtain ⟨ds, rfl⟩ := List.head?_eq_some_iff.1 hbs
      exact hc _ rfl (splitComment?_append hb).symm
    rw [splitComment?_cons hcb, ih hb]
    rfl

/-! ## Reading finds these tokens -/

theorem isNameChar_of_isNameStart {c : Char} (h : isNameStart c = true) : isNameChar c = true := by
  simp only [isNameStart, Bool.or_eq_true] at h
  simp only [isNameChar, isAlphanumeric, Bool.or_eq_true]
  exact h.imp_right Or.inl

/-- A token of one character, or of two that make up an operator. -/
theorem reads_of_readSymbol {a : Char} {cs lexeme piece rest : List Char} {kind : TokenKind}
    (h : readSymbol (a :: cs) = .token kind lexeme piece rest)
    (hstart : isNameStart a = false) (hdigit : a.isDigit = false) (hspace : isSpacing a = false)
    (hquote : a ≠ '\'') (hbar : a = '|' → cs.head? = some '|')
    (hdash : ¬ (a = '-' ∧ cs.head? = some '-')) (hslash : ¬ (a = '/' ∧ cs.head? = some '*')) :
    Reads kind lexeme piece rest := by
  cases cs with
  | nil =>
    unfold readSymbol at h
    split at h
    · rename_i o n ho
      obtain ⟨-, rfl⟩ := mem_of_operator?_singleton ho
      cases h
      exact .single ho (by simp)
    · rename_i ho
      cases h
      have hb : a ≠ '|' := fun ha => by simpa using hbar ha
      exact .illegal ho hquote hb hstart hdigit hspace (by simp)
  | cons b cs =>
    have hcomment : pairOperator? a b = none → pairs a b = false := by
      intro hp
      simp only [List.head?_cons, Option.some.injEq, not_and] at hdash hslash
      simp only [pairs, hp, Option.isSome_none, Bool.false_or, Bool.or_eq_false_iff,
        Bool.and_eq_false_imp, beq_iff_eq, beq_eq_false_iff_ne]
      exact ⟨hdash, hslash⟩
    unfold readSymbol at h
    rw [operator?_cons_cons] at h
    cases hp : pairOperator? a b with
    | some o =>
      simp only [hp, Option.map_some, Option.some_or] at h
      cases h
      exact .pair hp
    | none =>
      simp only [hp, Option.map_none, Option.none_or] at h
      split at h
      · rename_i o n ho
        obtain ⟨-, rfl⟩ := mem_of_operator?_singleton ho
        cases h
        exact .single ho (by simpa using hcomment hp)
      · rename_i ho
        cases h
        have hb : a ≠ '|' := by
          rintro rfl
          have := hbar rfl
          simp only [List.head?_cons, Option.some.injEq] at this
          subst this
          simp [pairOperator?] at hp
        exact .illegal ho hquote hb hstart hdigit hspace (by simpa using hcomment hp)

theorem takeWhile_all {α : Type} {p : α → Bool} {cs : List α} :
    ∀ d ∈ cs.takeWhile p, p d = true :=
  fun _ hd => List.all_eq_true.1 List.all_takeWhile _ hd

theorem head?_dropWhile_not {α : Type} {p : α → Bool} (cs : List α) :
    ∀ d ∈ (cs.dropWhile p).head?, p d = false := by
  intro d hd
  have := List.head?_dropWhile_not p cs
  rw [Option.mem_def] at hd
  simpa [hd] using this

theorem wordKind_ne_eof (lexeme : String) : wordKind lexeme ≠ .eof := by
  unfold wordKind
  split <;> simp

theorem eq_nil_of_reading_eof {cs lexeme piece rest : List Char}
    (h : reading cs = .token .eof lexeme piece rest) : cs = [] := by
  have hsym : ∀ cs, readSymbol cs ≠ .token .eof lexeme piece rest := by
    intro cs h
    unfold readSymbol at h
    split at h <;> cases h
  unfold reading at h
  split at h
  · rfl
  · unfold readString at h
    split at h <;> cases h
  · cases h
  · unfold readBlockComment at h
    split at h <;> cases h
  · split at h
    · exact absurd h (hsym _)
    · cases h
  · split at h
    · simp only [readWord, Reading.token.injEq] at h
      exact absurd h.1 (wordKind_ne_eof _)
    · split at h
      · cases h
      · exact absurd h (hsym _)

section
variable {c : Char} {cs lexeme piece rest : List Char} {kind : TokenKind}

theorem reads_of_readString (h : readString cs = .token kind lexeme piece rest) :
    Reads kind lexeme piece rest := by
  have hq := splitString_fst_quoted cs
  unfold readString at h
  split at h
  · rename_i body hs
    cases h
    rw [hs] at hq
    exact .openString hq
  · rename_i body q rest' hs
    obtain ⟨rfl, hr⟩ := splitString_snd (congrArg Prod.snd hs)
    cases h
    rw [hs] at hq
    exact .string hq hr

theorem reads_of_readLineComment
    (h : readLineComment ('-' :: '-' :: cs) = .token kind lexeme piece rest) :
    Reads kind lexeme piece rest := by
  simp only [readLineComment, Reading.token.injEq] at h
  obtain ⟨rfl, rfl, rfl, rfl⟩ := h
  have hhead : ('-' :: '-' :: cs).takeWhile (· != '\n') =
      '-' :: '-' :: cs.takeWhile (· != '\n') := rfl
  have hrest : ('-' :: '-' :: cs).dropWhile (· != '\n') = cs.dropWhile (· != '\n') := rfl
  rw [hhead, hrest]
  refine .lineComment (fun d hd => ?_) (fun d hd => ?_)
  · simpa using takeWhile_all d hd
  · simpa using head?_dropWhile_not _ d hd

theorem reads_of_readBlockComment (h : readBlockComment cs = .token kind lexeme piece rest) :
    Reads kind lexeme piece rest := by
  unfold readBlockComment at h
  split at h
  · rename_i body rest' hs
    cases h
    exact .blockComment (enclosed_of_splitComment? hs)
  · cases h

theorem reads_of_readWord (h : readWord (c :: cs) = .token kind lexeme piece rest)
    (hc : isNameStart c = true) : Reads kind lexeme piece rest := by
  simp only [readWord, List.takeWhile_cons_of_pos (isNameChar_of_isNameStart hc),
    List.dropWhile_cons_of_pos (isNameChar_of_isNameStart hc)] at h
  cases h
  exact .word hc takeWhile_all (head?_dropWhile_not _)

theorem reads_of_readNumber (h : readNumber (c :: cs) = .token kind lexeme piece rest)
    (hc : isNameStart c = false) (hd : c.isDigit = true) : Reads kind lexeme piece rest := by
  simp only [readNumber, List.takeWhile_cons_of_pos hd, List.dropWhile_cons_of_pos hd] at h
  cases h
  exact .number hc hd takeWhile_all (head?_dropWhile_not _)

/-- The tokens that `reading` finds in a text that starts with no spacing. -/
theorem reads_of_reading (h : reading cs = .token kind lexeme piece rest) (hk : kind ≠ .eof)
    (hspace : ∀ d ∈ cs.head?, isSpacing d = false) : Reads kind lexeme piece rest := by
  unfold reading at h
  split at h
  · cases h
    exact absurd rfl hk
  · exact reads_of_readString h
  · exact reads_of_readLineComment h
  · exact reads_of_readBlockComment h
  · split at h
    · rename_i hb
      exact reads_of_readSymbol h (by decide) (by decide) (by decide) (by decide) (fun _ => hb)
        (by simp) (by simp)
    · cases h
  · rename_i c cs hq hdash hslash hbar
    split at h
    · rename_i hc
      exact reads_of_readWord h hc
    · rename_i hc
      rw [Bool.not_eq_true] at hc
      split at h
      · rename_i hd
        exact reads_of_readNumber h hc hd
      · rename_i hd
        rw [Bool.not_eq_true] at hd
        refine reads_of_readSymbol h hc hd (hspace c (by simp)) hq (fun he => (hbar he).elim) ?_ ?_
        · rintro ⟨rfl, hcs⟩
          obtain ⟨ds, rfl⟩ := List.head?_eq_some_iff.1 hcs
          exact hdash ds rfl rfl
        · rintro ⟨rfl, hcs⟩
          obtain ⟨ds, rfl⟩ := List.head?_eq_some_iff.1 hcs
          exact hslash ds rfl rfl

end

/-- What a scan can run into: a bar by itself, or a comment that is not closed. -/
theorem reading_eq_fault {cs piece rest : List Char} {fault : ScanFault}
    (h : reading cs = .fault fault piece rest) :
    (fault = .loneBar ∧ ∃ back, cs = '|' :: back ∧ back.head? ≠ some '|') ∨
      fault = .unterminatedComment ∧ ∃ back, cs = '/' :: '*' :: back ∧ splitComment? back = none := by
  have hsymbol : ∀ cs, readSymbol cs ≠ .fault fault piece rest := by
    intro cs hcs
    unfold readSymbol at hcs
    split at hcs <;> cases hcs
  unfold reading at h
  split at h
  · cases h
  · unfold readString at h
    split at h <;> cases h
  · cases h
  · rename_i cs
    unfold readBlockComment at h
    split at h
    · cases h
    · rename_i hnone
      cases h
      exact .inr ⟨rfl, cs, rfl, hnone⟩
  · rename_i cs
    split at h
    · exact absurd h (hsymbol _)
    · rename_i hbar
      cases h
      exact .inl ⟨rfl, cs, rfl, hbar⟩
  · split at h
    · cases h
    · split at h
      · cases h
      · exact absurd h (hsymbol _)

theorem takeWhile_append_stop {α : Type} {p : α → Bool} (cs rest : List α)
    (h : ∀ d ∈ cs, p d = true) (hr : ∀ d ∈ rest.head?, p d = false) :
    (cs ++ rest).takeWhile p = cs ∧ (cs ++ rest).dropWhile p = rest := by
  rw [List.takeWhile_append_of_pos h, List.dropWhile_append_of_pos h]
  cases rest with
  | nil => simp
  | cons d ds =>
    have hd : p d = false := hr d (by simp)
    simp [hd]

/-- A character that starts no string, comment or bar is read by its class. -/
theorem reading_cons {a : Char} {cs : List Char} (hquote : a ≠ '\'')
    (hdash : ¬ (a = '-' ∧ cs.head? = some '-')) (hslash : ¬ (a = '/' ∧ cs.head? = some '*'))
    (hbar : a = '|' → cs.head? = some '|') :
    reading (a :: cs) =
      if isNameStart a then readWord (a :: cs)
      else if a.isDigit then readNumber (a :: cs)
      else readSymbol (a :: cs) := by
  unfold reading
  split
  · simp_all
  · simp_all
  · simp_all
  · simp_all
  · rename_i h
    cases h
    rw [if_pos (hbar rfl)]
    rfl
  · rename_i h
    cases h
    rfl

theorem operatorChars_class {a : Char} (h : a ∈ operatorChars) :
    a ≠ '\'' ∧ a ≠ '|' ∧ isNameStart a = false ∧ a.isDigit = false ∧ isSpacing a = false := by
  fin_cases h <;> decide

theorem pairOperator?_class {a b : Char} {o : Operator} (h : pairOperator? a b = some o) :
    a ≠ '\'' ∧ (a = '|' → b = '|') ∧ isNameStart a = false ∧ a.isDigit = false ∧
      isSpacing a = false ∧ ¬ (a = '-' ∧ b = '-') ∧ ¬ (a = '/' ∧ b = '*') := by
  unfold pairOperator? at h
  split at h <;> first | decide | cases h

/-- What follows a character that makes up nothing with it opens no comment. -/
theorem not_comment_of_pairs {a : Char} {rest : List Char} (h : ∀ d ∈ rest.head?, pairs a d = false) :
    ¬ (a = '-' ∧ rest.head? = some '-') ∧ ¬ (a = '/' ∧ rest.head? = some '*') := by
  constructor
  · rintro ⟨rfl, hr⟩
    simpa [pairs] using h _ hr
  · rintro ⟨rfl, hr⟩
    simpa [pairs] using h _ hr

theorem operator?_of_pairs {a : Char} {rest : List Char} (h : ∀ d ∈ rest.head?, pairs a d = false) :
    operator? (a :: rest) = operator? [a] := by
  cases rest with
  | nil => rfl
  | cons d ds =>
    have hd := h d (by simp)
    simp only [pairs, Bool.or_eq_false_iff, Option.isSome_eq_false_iff, Option.isNone_iff_eq_none] at hd
    rw [operator?_cons_cons, hd.1.1]
    rfl

/-! ## What follows a token -/

/-- Whether a character prolongs no token in front of it but a string or a line
    comment. -/
def isSeparator (c : Char) : Bool :=
  isSpacing c || c == ';' || c == ',' || c == '(' || c == ')'

theorem isSeparator_class {c : Char} (h : isSeparator c = true) :
    isNameStart c = false ∧ isNameChar c = false ∧ c.isDigit = false ∧ c ≠ '\'' ∧
      ∀ a, pairs a c = false := by
  have hmem : c ∈ [' ', '\t', '\r', '\n', ';', ',', '(', ')'] := by
    simpa [isSeparator, isSpacing, or_assoc] using h
  have hpair : c ∉ ['|', '*', '>', '=', '.', '-'] := by
    fin_cases hmem <;> decide
  refine ⟨?_, ?_, ?_, ?_, fun a => ?_⟩
  · fin_cases hmem <;> decide
  · fin_cases hmem <;> decide
  · fin_cases hmem <;> decide
  · fin_cases hmem <;> decide
  · simp only [List.mem_cons, List.not_mem_nil, or_false, not_or] at hpair
    have hp : pairOperator? a c = none := by
      unfold pairOperator?
      split <;> simp_all
    simp [pairs, hp, hpair]

theorem isSeparator_of_isSpacing {c : Char} (h : isSpacing c = true) : isSeparator c = true := by
  simp [isSeparator, h]

namespace Reads

variable {kind : TokenKind} {lexeme piece rest : List Char}

/-- **`reading` finds every token.** -/
theorem reading (h : Reads kind lexeme piece rest) :
    reading (piece ++ rest) = .token kind lexeme piece rest := by
  cases h with
  | @word c cs _ hc hcs hr =>
    have hstop := takeWhile_append_stop (c :: cs) rest
      (List.forall_mem_cons.2 ⟨isNameChar_of_isNameStart hc, hcs⟩) hr
    have hclass : c ∉ ['\'', '-', '/', '|'] := by
      intro h
      revert hc
      fin_cases h <;> decide
    simp only [List.mem_cons, List.not_mem_nil, or_false, not_or] at hclass
    rw [List.cons_append] at hstop ⊢
    rw [reading_cons hclass.1 (fun h => hclass.2.1 h.1) (fun h => hclass.2.2.1 h.1)
      (fun h => absurd h hclass.2.2.2), if_pos hc]
    simp only [readWord, hstop]
  | @number c cs _ hc hd hcs hr =>
    have hstop := takeWhile_append_stop (c :: cs) rest (List.forall_mem_cons.2 ⟨hd, hcs⟩) hr
    have hclass : c ∉ ['\'', '-', '/', '|'] := by
      intro h
      revert hd
      fin_cases h <;> decide
    simp only [List.mem_cons, List.not_mem_nil, or_false, not_or] at hclass
    rw [List.cons_append] at hstop ⊢
    rw [reading_cons hclass.1 (fun h => hclass.2.1 h.1) (fun h => hclass.2.2.1 h.1)
      (fun h => absurd h hclass.2.2.2), if_neg (by simp [hc]), if_pos hd]
    simp only [readNumber, hstop]
  | string hq hr =>
    have hs := splitString_quoted hq hr
    simp only [List.cons_append, List.append_assoc, List.nil_append, PackageDoc.reading,
      readString, hs]
  | openString hq =>
    have hs : splitString lexeme = (lexeme, []) := hq
    simp only [List.append_nil, PackageDoc.reading, readString, hs]
  | @lineComment cs _ hcs hr =>
    have hstop := takeWhile_append_stop (p := (· != '\n')) ('-' :: '-' :: cs) rest
      (by simpa using hcs) (by simpa using hr)
    simp only [List.cons_append] at hstop ⊢
    simp only [PackageDoc.reading, readLineComment, hstop]
  | blockComment he =>
    simp only [List.cons_append, PackageDoc.reading, readBlockComment, splitComment?_enclosed he]
  | @pair a b o _ hp =>
    obtain ⟨hq, hb, hs, hd, -, hdash, hslash⟩ := pairOperator?_class hp
    simp only [List.cons_append, List.nil_append]
    rw [reading_cons hq (by simpa using hdash) (by simpa using hslash) (by simpa using hb),
      if_neg (by simp [hs]), if_neg (by simp [hd])]
    simp [readSymbol, operator?_cons_cons, hp]
  | @single a o _ ho hr =>
    obtain ⟨hq, hb, hs, hd, -⟩ := operatorChars_class (mem_of_operator?_singleton ho).1
    obtain ⟨hdash, hslash⟩ := not_comment_of_pairs hr
    rw [List.singleton_append, reading_cons hq hdash hslash (fun h => absurd h hb),
      if_neg (by simp [hs]), if_neg (by simp [hd])]
    simp [readSymbol, operator?_of_pairs hr, ho]
  | @illegal a _ ho hq hb hs hd _ hr =>
    obtain ⟨hdash, hslash⟩ := not_comment_of_pairs hr
    rw [List.singleton_append, reading_cons hq hdash hslash (fun h => absurd h hb),
      if_neg (by simp [hs]), if_neg (by simp [hd])]
    simp [readSymbol, operator?_of_pairs hr, ho]

theorem kind_ne_eof (h : Reads kind lexeme piece rest) : kind ≠ .eof := by
  cases h with
  | word => exact wordKind_ne_eof _
  | _ => simp

theorem piece_ne_nil (h : Reads kind lexeme piece rest) : piece ≠ [] := by
  cases h <;> simp

theorem head_not_spacing (h : Reads kind lexeme piece rest) :
    ∀ d ∈ piece.head?, isSpacing d = false := by
  intro d hd
  cases h with
  | @word c cs _ hc =>
    cases hd
    by_contra hsp
    have := (isSeparator_class (isSeparator_of_isSpacing (Bool.not_eq_false _ ▸ hsp))).1
    rw [hc] at this
    cases this
  | @number c cs _ _ hc =>
    cases hd
    by_contra hsp
    have := (isSeparator_class (isSeparator_of_isSpacing (Bool.not_eq_false _ ▸ hsp))).2.2.1
    rw [hc] at this
    cases this
  | string | openString | lineComment | blockComment => cases hd; rfl
  | pair hp => cases hd; exact (pairOperator?_class hp).2.2.2.2.1
  | single ho => cases hd; exact (operatorChars_class (mem_of_operator?_singleton ho).1).2.2.2.2
  | illegal _ _ _ _ _ hsp => cases hd; exact hsp

/-- A token is found again where the text is cut behind it. -/
theorem cut (h : Reads kind lexeme piece rest) : Reads kind lexeme piece [] := by
  cases h with
  | word hc hcs _ => exact .word hc hcs (by simp)
  | number hc hd hcs _ => exact .number hc hd hcs (by simp)
  | string hq _ => exact .string hq (by simp)
  | openString hq => exact .openString hq
  | lineComment hcs _ => exact .lineComment hcs (by simp)
  | blockComment he => exact .blockComment he
  | pair hp => exact .pair hp
  | single ho _ => exact .single ho (by simp)
  | illegal ho hq hb hs hd hsp _ => exact .illegal ho hq hb hs hd hsp (by simp)

/-- A token depends on no more than the next character. -/
theorem lookahead {c : Char} {rest : List Char} (h : Reads kind lexeme piece (c :: rest))
    (rest' : List Char) : Reads kind lexeme piece (c :: rest') := by
  cases h with
  | word hc hcs hr => exact .word hc hcs hr
  | number hc hd hcs hr => exact .number hc hd hcs hr
  | string hq hr => exact .string hq hr
  | lineComment hcs hr => exact .lineComment hcs hr
  | blockComment he => exact .blockComment he
  | pair hp => exact .pair hp
  | single ho hr => exact .single ho hr
  | illegal ho hq hb hs hd hsp hr => exact .illegal ho hq hb hs hd hsp hr

/-- A token that is neither a comment nor an open string ends at a separator. -/
theorem separated {c : Char} (h : Reads kind lexeme piece []) (hk : kind ≠ .comment)
    (hs : kind = .string → piece = '\'' :: lexeme ++ ['\'']) (hc : isSeparator c = true)
    (rest' : List Char) : Reads kind lexeme piece (c :: rest') := by
  obtain ⟨-, hname, hdigit, hquote, hpairs⟩ := isSeparator_class hc
  cases h with
  | word hc hcs _ => exact .word hc hcs (by simpa using hname)
  | number hc hd hcs _ => exact .number hc hd hcs (by simpa using hdigit)
  | string hq _ => exact .string hq (by simpa using hquote)
  | openString hq => simpa using congrArg List.length (hs rfl)
  | lineComment => exact absurd rfl hk
  | blockComment => exact absurd rfl hk
  | pair hp => exact .pair hp
  | single ho _ => exact .single ho (by simpa using hpairs _)
  | illegal ho hq hb hstart hd hsp _ =>
    exact .illegal ho hq hb hstart hd hsp (by simpa using hpairs _)

/-- A token that is an operator is spelled like it; only the inequality has two
    spellings. -/
theorem spelling {o : Operator} (h : Reads (.op o) lexeme piece rest) (ho : o ≠ .notEqual) :
    lexeme = o.spelling.toList ∧ piece = o.spelling.toList := by
  generalize hkind : TokenKind.op o = kind at h
  cases h with
  | word =>
    unfold wordKind at hkind
    split at hkind <;> cases hkind
  | pair hpair =>
    cases hkind
    unfold pairOperator? at hpair
    split at hpair <;> cases hpair <;> simp [Operator.spelling] at ho ⊢
  | single hsingle _ =>
    cases hkind
    unfold operator? at hsingle
    split at hsingle <;> simp_all <;> subst hsingle <;> rfl
  | _ => cases hkind

end Reads

end PackageDoc
