/-
  The tokens of a list of fields.

  The tokens between the parentheses of a list are those of its fields
  (`FieldPart`), separated by commas (`Separated`).  The part of a field are its
  name, the words of its mode, the word `nocopy`, and the tokens that its type and its
  default value were put together from; parentheses are in pairs in both, and what
  would end them stands inside parentheses (`FieldPart.Gives`).  If no name is a
  parenthesis, the list is closed by the parenthesis that matches the opening one
  (`fieldList_splits`).
-/
import PackageDoc.Proofs.Decl.Canonical
import PackageDoc.Proofs.Parser.Returns
import PackageDoc.Proofs.Parser.Source

namespace PackageDoc

open Text

/-! ## Parentheses in pairs -/

theorem balanced_append {depth : Nat} {ws vs : List (TokenKind × String)}
    (h : balanced depth ws = true) (h' : balanced 0 vs = true) :
    balanced depth (ws ++ vs) = true := by
  induction ws generalizing depth with
  | nil =>
    have hdepth : depth = 0 := by simpa [balanced] using h
    rw [hdepth]
    exact h'
  | cons w ws ih =>
    unfold balanced at h
    split at h
    · cases h
    · rename_i hclose
      rw [List.cons_append, balanced, if_neg hclose]
      exact ih h

/-- Whether a token of this kind is a parenthesis. -/
def TokenKind.isParen (kind : TokenKind) : Bool := kind = .op .openParen || kind = .op .closeParen

theorem balanced_of_plain {ws : List (TokenKind × String)} (h : ∀ w ∈ ws, w.1.isParen = false) :
    balanced 0 ws = true := by
  induction ws with
  | nil => rfl
  | cons w ws ih =>
    have hw := h w (by simp)
    simp only [TokenKind.isParen, Bool.or_eq_false_iff, decide_eq_false_iff_not] at hw
    have ih := ih fun v hv => h v (by simp [hv])
    simp [balanced, depthAfter, hw, ih]

/-- Parentheses that are open before a token stay open behind it. -/
theorem depthAfter_add {depth : Nat} {kind : TokenKind}
    (h : ¬ (kind = .op .closeParen && depth = 0) = true) (n : Nat) :
    depthAfter (depth + n) kind = depthAfter depth kind + n := by
  simp only [Bool.and_eq_true, decide_eq_true_eq, not_and] at h
  unfold depthAfter
  grind

theorem balanced_concat {depth : Nat} {ws : List (TokenKind × String)} {close : TokenKind × String}
    (h : balanced depth ws = true) (hclose : close.1 = .op .closeParen) :
    balanced (depth + 1) (ws ++ [close]) = true := by
  induction ws generalizing depth with
  | nil =>
    have hdepth : depth = 0 := by simpa [balanced] using h
    simp [balanced, depthAfter, hclose, hdepth]
  | cons w ws ih =>
    unfold balanced at h
    split at h
    · cases h
    · rename_i hw
      have ih := ih h
      simp [balanced, depthAfter_add hw, ih]

/-- A group in parentheses. -/
theorem balanced_group {opening close : TokenKind × String} {ws : List (TokenKind × String)}
    (hopen : opening.1 = .op .openParen) (h : balanced 0 ws = true)
    (hclose : close.1 = .op .closeParen) : balanced 0 (opening :: ws ++ [close]) = true := by
  simp [balanced, depthAfter, hopen, balanced_concat h hclose]

/-- The kinds and lexemes of some tokens. -/
def wordsOf (ts : List DocToken) : List (TokenKind × String) := (plainTokens ts).map Token.word

@[simp] theorem wordsOf_nil : wordsOf [] = [] := rfl

@[simp]
theorem wordsOf_cons (t : DocToken) (ts : List DocToken) :
    wordsOf (t :: ts) = (t.kind, t.lexeme) :: wordsOf ts := rfl

@[simp]
theorem wordsOf_append (ts us : List DocToken) : wordsOf (ts ++ us) = wordsOf ts ++ wordsOf us := by
  simp [wordsOf, plainTokens]

/-- What is read up to a token that ends it closes its parentheses, and ends at the
    first token that could end it. -/
theorem balanced_splitNested {stop : TokenKind → Bool} {depth : Nat} {ts : List DocToken}
    (h : (splitNested stop depth ts).2 ≠ []) :
    balanced depth (wordsOf (splitNested stop depth ts).1) = true ∧
      (outerWords depth (wordsOf (splitNested stop depth ts).1)).all (fun w => !stop w.1) = true := by
  induction ts generalizing depth with
  | nil => exact absurd rfl h
  | cons t ts ih =>
    unfold splitNested at h ⊢
    split
    · rename_i hstop
      have hdepth : depth = 0 := by
        simp only [Bool.and_eq_true, decide_eq_true_eq] at hstop
        exact hstop.1
      simp [balanced, outerWords, hdepth]
    · rename_i hstop
      rw [if_neg hstop] at h
      obtain ⟨hbalanced, houter⟩ := ih h
      simp only [Bool.and_eq_true, decide_eq_true_eq, Bool.or_eq_true, not_and, not_or] at hstop
      have hclose : ¬ ((t.kind = .op .closeParen && depth = 0) = true) := by
        simp only [Bool.and_eq_true, decide_eq_true_eq, not_and]
        exact fun hclose hdepth => (hstop hdepth).1 hclose
      refine ⟨?_, ?_⟩
      · rw [wordsOf_cons, balanced, if_neg hclose]
        exact hbalanced
      · rw [wordsOf_cons, outerWords, List.all_append, Bool.and_eq_true]
        refine ⟨?_, houter⟩
        by_cases hdepth : depth = 0
        · simpa [hdepth] using (hstop hdepth).2
        · simp [hdepth]

/-- Conversely, what closes its parentheses is read up to a token that ends it. -/
theorem splitNested_of_balanced {stop : TokenKind → Bool} {depth : Nat} {ds : List DocToken}
    (hbalanced : balanced depth (wordsOf ds) = true)
    (houter : (outerWords depth (wordsOf ds)).all (fun w => !stop w.1) = true) {u : DocToken}
    (hu : u.kind = .op .closeParen ∨ stop u.kind = true) (rest : List DocToken) :
    splitNested stop depth (ds ++ u :: rest) = (ds, u :: rest) := by
  induction ds generalizing depth with
  | nil =>
    have hdepth : depth = 0 := by simpa [balanced] using hbalanced
    simp [splitNested, hdepth, hu]
  | cons d ds ih =>
    rw [wordsOf_cons] at hbalanced houter
    unfold balanced at hbalanced
    split at hbalanced
    · cases hbalanced
    · rename_i hclose
      rw [outerWords, List.all_append, Bool.and_eq_true] at houter
      have hstop : ¬ (decide (depth = 0) &&
          (decide (d.kind = .op .closeParen) || stop d.kind)) = true := by
        simp only [Bool.and_eq_true, decide_eq_true_eq, Bool.or_eq_true] at hclose ⊢
        rintro ⟨hdepth, hstop | hstop⟩
        · exact hclose ⟨hstop, hdepth⟩
        · simp [hdepth, hstop] at houter
      rw [List.cons_append, splitNested, if_neg hstop, ih hbalanced houter.2]

/-- And the type of a variable goes up to its default value. -/
theorem splitDefault_of_balanced {depth : Nat} {ds : List DocToken}
    (hbalanced : balanced depth (wordsOf ds) = true)
    (houter : (outerWords depth (wordsOf ds)).all (fun w => !startsDefault w.1) = true) :
    splitDefault depth ds = (ds, []) ∧
      ∀ (u : DocToken) (rest : List DocToken), startsDefault u.kind = true →
        splitDefault depth (ds ++ u :: rest) = (ds, rest) := by
  induction ds generalizing depth with
  | nil =>
    have hdepth : depth = 0 := by simpa [balanced] using hbalanced
    exact ⟨rfl, fun u rest hu => by simp [splitDefault, hdepth, hu]⟩
  | cons d ds ih =>
    rw [wordsOf_cons] at hbalanced houter
    unfold balanced at hbalanced
    split at hbalanced
    · cases hbalanced
    · rw [outerWords, List.all_append, Bool.and_eq_true] at houter
      obtain ⟨ih, ih'⟩ := ih hbalanced houter.2
      have hstop : ¬ (decide (depth = 0) && startsDefault d.kind) = true := by
        simp only [Bool.and_eq_true, decide_eq_true_eq]
        rintro ⟨hdepth, hstop⟩
        simp [hdepth, hstop] at houter
      constructor
      · rw [splitDefault, if_neg hstop, ih]
      · intro u rest hu
        rw [List.cons_append, splitDefault, if_neg hstop, ih' u rest hu]

/-! ## The parts of a list -/

/-- The tokens of a field of a list. -/
structure FieldPart where
  name : DocToken
  mode : List DocToken
  nocopy? : Option DocToken
  type : List DocToken
  /-- the word or the sign that the default value follows -/
  opening? : Option DocToken
  default : List DocToken

namespace FieldPart

/-- The tokens of a field, in their order. -/
def tokens (p : FieldPart) : List DocToken :=
  p.name :: p.mode ++ p.nocopy?.toList ++ p.type ++ p.opening?.toList ++ p.default

/-- What the tokens of a field say: its doc, its name, its mode, and the tokens of its
    type and its default value. -/
structure Gives (p : FieldPart) (f : Field) : Prop where
  /-- where there are no tokens of a type, it is at the place where the default value
      starts -/
  field : ∃ first ∈ (p.type ++ p.opening?.toList).head?,
    f = .ofParameter p.name.fieldDoc ⟨p.name.lexeme, p.name.span⟩ f.mode
      (.ofTokens first.span.start (plainTokens p.type)) (Ident.ofTokens? (plainTokens p.default))
  mode : p.mode.map (·.kind) = f.mode.words.map (·.1)
  nocopy : ∀ t ∈ p.nocopy?, t.kind = .ident ∧ t.lexeme = "nocopy"
  /-- the type has its parentheses in pairs, and nothing that ends it outside them -/
  type : balanced 0 (wordsOf p.type) = true ∧
    outsideNone (fun kind => kind = .op .comma || startsDefault kind) (wordsOf p.type) = true
  opening : ∀ t ∈ p.opening?, startsDefault t.kind = true
  default : balanced 0 (wordsOf p.default) = true ∧
    outsideNone (· = .op .comma) (wordsOf p.default) = true
  /-- a field without a default value has no tokens for one -/
  stated : p.opening? = none → p.default = []

end FieldPart

/-- The tokens between the parentheses of a list: the parts of its fields, with a
    comma between every two of them. -/
inductive Separated : List FieldPart → List DocToken → Prop where
  | single (p : FieldPart) : Separated [p] p.tokens
  | cons {p : FieldPart} {comma : DocToken} {ps : List FieldPart} {ts : List DocToken} :
      comma.kind = .op .comma → Separated ps ts → Separated (p :: ps) (p.tokens ++ comma :: ts)

namespace Parser

variable {i : Input} {ts rest : List DocToken}

theorem tokens_passMode (heof : i.eof.kind = .eof) {mode : PassMode}
    (h : Returns passMode i ts mode rest) :
    ∃ words, ts = words ++ rest ∧ words.map (·.kind) = mode.words.map (·.1) := by
  simp only [passMode, returns_isAt_bind, returns_ite, returns_advance_bind, returns_pure,
    decide_eq_true_eq] at h
  split at h
  · rename_i hout
    obtain ⟨t, us, rfl, ht⟩ := cons_of_current heof hout (by simp)
    obtain ⟨-, rfl, rfl⟩ := h
    exact ⟨[t], rfl, by simp [ht, PassMode.words, Keyword.word]⟩
  · split at h
    · rename_i hin
      obtain ⟨t, us, rfl, ht⟩ := cons_of_current heof hin (by simp)
      rw [List.tail_cons] at h
      obtain ⟨-, h⟩ := h
      split at h
      · rename_i hout
        obtain ⟨u, vs, rfl, hu⟩ := cons_of_current heof hout (by simp)
        obtain ⟨-, rfl, rfl⟩ := h
        exact ⟨[t, u], rfl, by simp [ht, hu, PassMode.words, Keyword.word]⟩
      · obtain ⟨rfl, rfl⟩ := h
        exact ⟨[t], rfl, by simp [ht, PassMode.words, Keyword.word]⟩
    · obtain ⟨rfl, rfl⟩ := h
      exact ⟨[], rfl, rfl⟩

/-- The tokens of a default value that something follows. -/
theorem tokens_paramDefault (heof : i.eof.kind = .eof) {default? : Option Ident}
    (h : Returns paramDefault i ts default? rest) (hrest : rest ≠ []) :
    ∃ (opening? : Option DocToken) (value : List DocToken),
      ts = opening?.toList ++ value ++ rest ∧ default? = Ident.ofTokens? (plainTokens value) ∧
      (∀ t ∈ opening?, startsDefault t.kind = true) ∧ (opening? = none → value = []) ∧
      (startsDefault (i.current ts).kind = true → opening? = some (i.current ts)) ∧
      balanced 0 (wordsOf value) = true ∧ outsideNone (· = .op .comma) (wordsOf value) = true := by
  simp only [paramDefault, takeNested, returns_current_bind, returns_ite, returns_advance_bind,
    returns_passTo_bind, returns_atEnd_bind, returns_pure] at h
  split at h
  · rename_i hstart
    obtain ⟨t, us, rfl, ht⟩ : ∃ t us, ts = t :: us ∧ startsDefault t.kind = true := by
      cases ts with
      | nil =>
        rw [Input.current, List.headD_nil, heof] at hstart
        cases hstart
      | cons t us => exact ⟨t, us, rfl, hstart⟩
    obtain ⟨-, -, h⟩ := h
    rw [List.tail_cons] at h
    have hsplit := splitNested_append (fun kind => decide (kind = .op .comma)) 0 us
    generalize hinner : splitNested (fun kind => decide (kind = .op .comma)) 0 us = split at h hsplit
    obtain ⟨value, after⟩ := split
    have hafter : default? = Ident.ofTokens? (plainTokens value) ∧ rest = after := by
      cases after with
      | nil => split at h <;> simp_all
      | cons u after => simpa using h
    obtain ⟨rfl, rfl⟩ := hafter
    have hne : (splitNested (fun kind => decide (kind = .op .comma)) 0 us).2 ≠ [] := by
      rw [hinner]
      exact hrest
    obtain ⟨hbalanced, houter⟩ := balanced_splitNested hne
    rw [hinner] at hbalanced houter
    exact ⟨some t, value, by simp [← hsplit], rfl, by simpa using ht, by simp, fun _ => rfl,
      hbalanced, houter⟩
  · rename_i hstart
    obtain ⟨rfl, rfl⟩ := h
    exact ⟨none, [], rfl, rfl, by simp, by simp, fun h => absurd h hstart, rfl, rfl⟩

/-- The type and the default value of a parameter, where its name and its mode have
    been read. -/
def paramTail (name : DocToken) (mode : PassMode) : Parser Field := do
  let first ← current
  if !first.kind.isKeyword then require .ident
  let tokens ← takeNested fun kind => kind = .op .comma || startsDefault kind
  let default? ← paramDefault
  return .ofParameter name.fieldDoc ⟨name.lexeme, name.span⟩ mode
    (Ident.ofTokens first.span.start (plainTokens tokens)) default?

theorem param_eq : param = (do
    let name ← current
    advance
    let mode ← passMode
    let word ← current
    if word.kind = .ident && word.lexeme == "nocopy" then advance
    paramTail name mode) := rfl

/-- A word that does not go into a type starts a default value. -/
theorem startsDefault_of_splitNested {t : DocToken} (hword : t.kind.isKeyword = true ∨ t.kind = .ident)
    (h : (splitNested (fun kind => decide (kind = .op .comma) || startsDefault kind) 0
      (t :: ts)).1 = []) : startsDefault t.kind = true := by
  unfold splitNested at h
  split at h
  · rename_i hstop
    cases hkind : t.kind <;> simp_all [TokenKind.isKeyword, startsDefault]
  · cases h

/-- The tokens of a type and a default value that something follows. -/
theorem tokens_paramTail (heof : i.eof.kind = .eof) {name : DocToken} {mode : PassMode} {f : Field}
    (h : Returns (paramTail name mode) i ts f rest) (hrest : rest ≠ []) :
    ∃ (type : List DocToken) (opening? : Option DocToken) (value : List DocToken),
      ts = type ++ opening?.toList ++ value ++ rest ∧
      (∃ first ∈ (type ++ opening?.toList).head?,
        f = .ofParameter name.fieldDoc ⟨name.lexeme, name.span⟩ mode
          (.ofTokens first.span.start (plainTokens type)) (Ident.ofTokens? (plainTokens value))) ∧
      (balanced 0 (wordsOf type) = true ∧
        outsideNone (fun kind => kind = .op .comma || startsDefault kind) (wordsOf type) = true) ∧
      (∀ t ∈ opening?, startsDefault t.kind = true) ∧ (opening? = none → value = []) ∧
      balanced 0 (wordsOf value) = true ∧ outsideNone (· = .op .comma) (wordsOf value) = true := by
  obtain ⟨hword, h⟩ : ((i.current ts).kind.isKeyword = true ∨ (i.current ts).kind = .ident) ∧
      Returns (do
        let tokens ← takeNested fun kind => kind = .op .comma || startsDefault kind
        let default? ← paramDefault
        return .ofParameter name.fieldDoc ⟨name.lexeme, name.span⟩ mode
          (Ident.ofTokens (i.current ts).span.start (plainTokens tokens)) default?) i ts f rest := by
    simp only [paramTail, returns_current_bind, returns_ite] at h
    split at h
    · exact (returns_require_bind.1 h).imp_left .inr
    · rename_i hkeyword
      exact ⟨.inl (by simpa using hkeyword), h⟩
  obtain ⟨-, h⟩ := returns_passTo_bind.1 h
  obtain ⟨default?, rest', hdefault, hpure⟩ := returns_bind.1 h
  obtain ⟨rfl, rfl⟩ := returns_pure.1 hpure
  have htype := splitNested_append
    (fun kind => decide (kind = .op .comma) || startsDefault kind) 0 ts
  obtain ⟨opening?, value, hvalue, rfl, hopening, hnone, hstart, hbalanced, houter⟩ :=
    tokens_paramDefault heof hdefault hrest
  have hne : (splitNested (fun kind => decide (kind = .op .comma) || startsDefault kind) 0 ts).2 ≠
      [] := by
    rw [hvalue]
    simp [hrest]
  refine ⟨_, opening?, value, ?_, ⟨_, ?_, rfl⟩, balanced_splitNested hne, hopening, hnone, hbalanced,
    houter⟩
  · rw [List.append_assoc, List.append_assoc, ← List.append_assoc opening?.toList, ← hvalue, htype]
  · -- either the type has tokens, or the word at hand starts the default value
    generalize hsplit : splitNested _ 0 ts = split at htype hstart
    obtain ⟨type, after⟩ := split
    obtain rfl : type ++ after = ts := htype
    cases type with
    | cons t type => rfl
    | nil =>
      cases after with
      | nil => exact absurd hword (by simp [Input.current, heof, TokenKind.isKeyword])
      | cons t after =>
        have hdefault := startsDefault_of_splitNested (t := t) hword (congrArg Prod.fst hsplit)
        simp [hstart hdefault, Input.current]

/-- The tokens of a field that something follows. -/
theorem tokens_param (heof : i.eof.kind = .eof) {f : Field} (h : Returns param i ts f rest)
    (hrest : rest ≠ []) : ∃ p : FieldPart, ts = p.tokens ++ rest ∧ p.Gives f := by
  rw [param_eq] at h
  simp only [returns_current_bind, returns_advance_bind, returns_bind (p := passMode),
    returns_ite] at h
  obtain ⟨-, mode, mid, hmode, h⟩ := h
  obtain ⟨words, hwords, hkinds⟩ := tokens_passMode heof hmode
  obtain ⟨nocopy?, us, rfl, hnocopy, htail⟩ : ∃ (nocopy? : Option DocToken) (us : List DocToken),
      mid = nocopy?.toList ++ us ∧ (∀ t ∈ nocopy?, t.kind = .ident ∧ t.lexeme = "nocopy") ∧
        Returns (paramTail (i.current ts) mode) i us f rest := by
    split at h
    · rename_i hword
      simp only [Bool.and_eq_true, decide_eq_true_eq, beq_iff_eq] at hword
      obtain ⟨t, us, rfl, -⟩ := cons_of_current heof hword.1 (by simp)
      exact ⟨some t, us, rfl, by simpa [Input.current] using hword, h.2⟩
    · exact ⟨none, mid, rfl, by simp, h⟩
  obtain ⟨type, opening?, value, rfl, ⟨first, hfirst, rfl⟩, htype, hopening, hnone, hvalue⟩ :=
    tokens_paramTail heof htail hrest
  cases ts with
  | nil =>
    -- the end of the input is no type
    simp only [List.tail_nil, List.nil_eq, List.append_eq_nil_iff] at hwords
    exact absurd hwords.2.2.2 hrest
  | cons t ts =>
    refine ⟨⟨t, words, nocopy?, type, opening?, value⟩, ?_, ?_⟩
    · simpa [FieldPart.tokens] using hwords
    · exact ⟨⟨first, hfirst, rfl⟩, hkinds, hnocopy, htype, hopening, hvalue, hnone⟩

/-- The tokens between the parentheses of a list that is read to its end, from the
    token behind its opening parenthesis, or behind a comma, on. -/
theorem tokens_fields (heof : i.eof.kind = .eof) {opening : Nat} {finish : List Field → FieldList}
    {done : List Field} {t : DocToken} {l : FieldList}
    (h : Returns (iterate (fieldStep opening) finish done) i (t :: ts) l rest) :
    ∃ ps inner close after, ts = inner ++ close :: after ∧ rest = close :: after ∧
      close.kind = .op .closeParen ∧ Separated ps inner ∧
      ∃ fs, List.Forall₂ FieldPart.Gives ps fs ∧
        l = ⟨opening, done.reverse ++ fs, close.span.start⟩ := by
  generalize hn : ts.length = n
  induction n using Nat.strongRecOn generalizing t ts done with
  | _ n ih =>
    obtain ⟨-, x, mid, hround, hmore⟩ := returns_iterate_cons.1 h
    obtain ⟨f, hparam, hx⟩ := returns_fieldStep.1 hround
    split at hx
    · rename_i hclose
      obtain ⟨close, after, rfl, hclose⟩ := cons_of_current heof hclose (by simp)
      obtain ⟨p, rfl, hp⟩ := tokens_param heof hparam (by simp)
      rw [hx] at hmore
      obtain ⟨rfl, rfl⟩ := returns_pure.1 hmore
      exact ⟨[p], p.tokens, close, after, rfl, rfl, hclose, .single p, [f], .cons hp .nil,
        by simp [Input.current]⟩
    · obtain ⟨comma, after, rfl, hcomma⟩ := cons_of_current heof hx.1 (by simp)
      obtain ⟨p, rfl, hp⟩ := tokens_param heof hparam (by simp)
      rw [hx.2] at hmore
      obtain ⟨ps, inner, close, after', rfl, hrest, hclose, hps, fs, hfs, rfl⟩ :=
        ih after.length (by simp at hn; omega) hmore rfl
      exact ⟨p :: ps, p.tokens ++ comma :: inner, close, after', by simp, hrest, hclose,
        .cons hcomma hps, f :: fs, .cons hp hfs, by simp⟩

/-- **The tokens of a list**: between the parentheses stand the parts of its fields. -/
theorem tokens_fieldList (heof : i.eof.kind = .eof) {t : DocToken} {l : FieldList}
    (h : Returns fieldList i (t :: ts) l rest) :
    ∃ ps inner close, ts = inner ++ close :: rest ∧ close.kind = .op .closeParen ∧
      l.opening = t.span.start ∧ l.closing = close.span.start ∧ Separated ps inner ∧
      List.Forall₂ FieldPart.Gives ps l.fields := by
  obtain ⟨l, mid, hloop, hrest⟩ := returns_bind.1 (returns_current_bind.1 h)
  simp only [returns_advance_bind, returns_pure] at hrest
  obtain ⟨-, rfl, rfl⟩ := hrest
  obtain ⟨ps, inner, close, after, rfl, rfl, hclose, hps, fs, hfs, rfl⟩ := tokens_fields heof hloop
  exact ⟨ps, inner, close, rfl, hclose, rfl, rfl, hps, by simpa using hfs⟩

end Parser

/-! ## Tokens and the spans of texts -/

/-- The tokens, comments apart, that stand in a span. -/
def tokensWithin (ts : List Token) (s : Span) : List Token :=
  (ts.filter (·.kind ≠ .comment)).filter fun t =>
    s.start ≤ t.span.start && t.span.stop ≤ s.stop

theorem Ident.eq_nil_of_ofTokens? {ts : List Token} (h : Ident.ofTokens? ts = none) : ts = [] := by
  cases ts with
  | nil => rfl
  | cons t us => simp [Ident.ofTokens?, List.getLast?_cons] at h

section
variable {before ts after : List Token} {first last : Token}

/-- The tokens of a row start behind the start of the first and end before the end of
    the last. -/
theorem bounds_of_ordered (hordered : ts.Pairwise fun t u => t.span.stop ≤ u.span.start)
    (hlt : ∀ t ∈ ts, t.span.start < t.span.stop) (hfirst : ts.head? = some first)
    (hlast : ts.getLast? = some last) :
    ∀ t ∈ ts, first.span.start ≤ t.span.start ∧ t.span.stop ≤ last.span.stop := by
  intro t ht
  constructor
  · obtain ⟨tail, rfl⟩ := List.head?_eq_some_iff.1 hfirst
    rcases List.mem_cons.1 ht with rfl | htail
    · exact Nat.le_refl _
    · have hle := (List.pairwise_cons.1 hordered).1 t htail
      have hpos := hlt first (by simp)
      omega
  · obtain ⟨front, rfl⟩ := List.getLast?_eq_some_iff.1 hlast
    rcases List.mem_append.1 ht with hfront | hmem
    · have hle := (List.pairwise_append.1 hordered).2.2 t hfront last (by simp)
      have hpos := hlt last (by simp)
      omega
    · rw [List.mem_singleton.1 hmem]

/-- Tokens in a row are all those between the start of the first and the end of the
    last. -/
theorem filter_between
    (hordered : (before ++ ts ++ after).Pairwise fun t u => t.span.stop ≤ u.span.start)
    (hlt : ∀ t ∈ before ++ ts ++ after, t.span.start < t.span.stop)
    (hfirst : ts.head? = some first) (hlast : ts.getLast? = some last) :
    (before ++ ts ++ after).filter (fun t =>
      first.span.start ≤ t.span.start && t.span.stop ≤ last.span.stop) = ts := by
  have hmem := List.mem_of_head? hfirst
  have hmem' := List.mem_of_getLast? hlast
  obtain ⟨hfront, -, hafter⟩ := List.pairwise_append.1 hordered
  obtain ⟨-, hts, hbefore⟩ := List.pairwise_append.1 hfront
  have hbounds := bounds_of_ordered hts (fun t ht => hlt t (by simp [ht])) hfirst hlast
  have hnone : before.filter (fun t =>
      first.span.start ≤ t.span.start && t.span.stop ≤ last.span.stop) = [] := by
    rw [List.filter_eq_nil_iff]
    intro t ht
    have hle := hbefore t ht first hmem
    have hpos := hlt t (by simp [ht])
    simp only [Bool.and_eq_true, decide_eq_true_eq]
    omega
  have hnone' : after.filter (fun t =>
      first.span.start ≤ t.span.start && t.span.stop ≤ last.span.stop) = [] := by
    rw [List.filter_eq_nil_iff]
    intro t ht
    have hle := hafter last (by simp [hmem']) t ht
    have hpos := hlt t (by simp [ht])
    simp only [Bool.and_eq_true, decide_eq_true_eq]
    omega
  have hall : ts.filter (fun t =>
      first.span.start ≤ t.span.start && t.span.stop ≤ last.span.stop) = ts :=
    List.filter_eq_self.2 fun t ht => by simpa using hbounds t ht
  rw [List.filter_append, List.filter_append, hnone, hnone', hall, List.nil_append,
    List.append_nil]

end

namespace Input.Scanned

variable {i : Input} {before ts after : List DocToken}

/-- The span of a text holds just the tokens that the text was put together from. -/
theorem tokensWithin_ofTokens? (hi : i.Scanned) (h : i.tokens = before ++ ts ++ after) :
    ∀ x ∈ Ident.ofTokens? (plainTokens ts), tokensWithin i.raw x.span = plainTokens ts := by
  intro x hx
  unfold Ident.ofTokens? at hx
  split at hx
  · rename_i first last hfirst hlast
    obtain ⟨rest, hscans, -⟩ := hi.scans
    have hplain : plainTokens i.tokens = plainTokens before ++ plainTokens ts ++ plainTokens after := by
      simp [h, plainTokens]
    have hordered := hscans.ordered.filter fun t => decide (t.kind ≠ .comment)
    have hlt : ∀ t ∈ plainTokens i.tokens, t.span.start < t.span.stop := by
      rw [hi.plainTokens_eq]
      exact fun t ht => hscans.start_lt_stop (List.mem_filter.1 ht).1
    rw [← hi.plainTokens_eq, hplain] at hordered
    rw [hplain] at hlt
    have hts := (List.pairwise_append.1 (List.pairwise_append.1 hordered).1).2.1
    have hle := (bounds_of_ordered hts (fun t ht => hlt t (by simp [ht])) hfirst hlast first
      (List.mem_of_head? hfirst)).2
    have hpos := hlt first (by simp [List.mem_of_head? hfirst])
    have hstop : max last.span.stop first.span.start = last.span.stop := Nat.max_eq_left (by omega)
    cases hx
    rw [tokensWithin, ← hi.plainTokens_eq, hplain, hstop]
    exact filter_between hordered hlt hfirst hlast
  · cases hx

theorem tokensWithin_ofTokens (hi : i.Scanned) (h : i.tokens = before ++ ts ++ after) (pos : Nat) :
    tokensWithin i.raw (Ident.ofTokens pos (plainTokens ts)).span = plainTokens ts := by
  unfold Ident.ofTokens
  cases hx : Ident.ofTokens? (plainTokens ts) with
  | some x => exact hi.tokensWithin_ofTokens? h x hx
  | none =>
    -- no token is as short as the empty text
    obtain ⟨rest, hscans, -⟩ := hi.scans
    rw [Ident.eq_nil_of_ofTokens? hx, tokensWithin, List.filter_eq_nil_iff]
    intro t ht
    have hpos := hscans.start_lt_stop (List.mem_filter.1 ht).1
    simp only [Option.getD_none, Bool.and_eq_true, decide_eq_true_eq]
    omega

end Input.Scanned

/-! ## Lists and their parts -/

/-- The type and the default value of a field have the tokens of its part in their
    spans, among the tokens of the source. -/
def FieldPart.Spans (ts : List Token) (p : FieldPart) (f : Field) : Prop :=
  (∃ x, f.type? = some x ∧ plainTokens p.type = tokensWithin ts x.span) ∧
    plainTokens p.default = (f.default?.map fun x => tokensWithin ts x.span).getD []

namespace FieldPart

variable {i : Input} {p : FieldPart} {f : Field}

/-- A part whose name is no parenthesis has its parentheses in pairs. -/
theorem Gives.inPairs (h : p.Gives f) (hname : p.name.kind.isWord = true) :
    balanced 0 (wordsOf p.tokens) = true := by
  have hfront : balanced 0 (wordsOf (p.name :: p.mode ++ p.nocopy?.toList)) = true := by
    refine balanced_of_plain fun w hw => ?_
    simp only [wordsOf_append, wordsOf_cons, List.mem_append, List.mem_cons] at hw
    rcases hw with (rfl | hw) | hw
    · cases hkind : p.name.kind <;> first | rfl | simp [TokenKind.isWord, hkind] at hname
    · obtain ⟨t, ht, rfl⟩ := List.mem_map.1 hw
      obtain ⟨d, hd, rfl⟩ := List.mem_map.1 ht
      have hmode : d.kind ∈ f.mode.words.map (·.1) := h.mode ▸ List.mem_map_of_mem hd
      show d.kind.isParen = false
      generalize d.kind = kind at hmode
      revert kind
      cases f.mode <;> decide
    · obtain ⟨t, ht, rfl⟩ := List.mem_map.1 hw
      obtain ⟨d, hd, rfl⟩ := List.mem_map.1 ht
      show d.kind.isParen = false
      rw [(h.nocopy d (Option.mem_toList.1 hd)).1]
      rfl
  have hopening : balanced 0 (wordsOf p.opening?.toList) = true := by
    refine balanced_of_plain fun w hw => ?_
    obtain ⟨t, ht, rfl⟩ := List.mem_map.1 hw
    obtain ⟨d, hd, rfl⟩ := List.mem_map.1 ht
    have hstart := h.opening d (Option.mem_toList.1 hd)
    show d.kind.isParen = false
    simp only [startsDefault, Bool.or_eq_true, decide_eq_true_eq] at hstart
    rcases hstart with hkind | hkind <;> (rw [hkind]; rfl)
  rw [tokens, wordsOf_append, wordsOf_append, wordsOf_append]
  exact balanced_append (balanced_append (balanced_append hfront h.type.1) hopening) h.default.1

theorem Gives.spans (hi : i.Scanned) (h : p.Gives f) (hp : p.tokens <:+: i.tokens) :
    p.Spans i.raw f := by
  obtain ⟨before, after, hsplit⟩ := hp
  obtain ⟨first, -, hfield⟩ := h.field
  have htype : i.tokens = (before ++ (p.name :: p.mode ++ p.nocopy?.toList)) ++ p.type ++
      (p.opening?.toList ++ p.default ++ after) := by simp [← hsplit, tokens]
  have hdefault : i.tokens = (before ++ (p.name :: p.mode ++ p.nocopy?.toList) ++ p.type ++
      p.opening?.toList) ++ p.default ++ after := by simp [← hsplit, tokens]
  rw [hfield]
  refine ⟨⟨_, rfl, (hi.tokensWithin_ofTokens htype _).symm⟩, ?_⟩
  show plainTokens p.default = ((Ident.ofTokens? (plainTokens p.default)).map _).getD []
  cases hx : Ident.ofTokens? (plainTokens p.default) with
  | some x => exact (hi.tokensWithin_ofTokens? hdefault x hx).symm
  | none => exact Ident.eq_nil_of_ofTokens? hx

end FieldPart

namespace Separated

variable {ps : List FieldPart} {ts : List DocToken}

theorem isInfix (h : Separated ps ts) : ∀ p ∈ ps, p.tokens <:+: ts := by
  induction h with
  | single p =>
    intro q hq
    exact List.mem_singleton.1 hq ▸ List.infix_rfl
  | @cons p comma ps ts hcomma _ ih =>
    intro q hq
    rcases List.mem_cons.1 hq with rfl | hq
    · exact (List.prefix_append _ _).isInfix
    · exact (ih q hq).trans ((List.suffix_cons comma ts).trans (List.suffix_append _ _)).isInfix

theorem inPairs (h : Separated ps ts)
    (hps : ∀ p ∈ ps, balanced 0 (wordsOf p.tokens) = true) : balanced 0 (wordsOf ts) = true := by
  induction h with
  | single p => exact hps p (by simp)
  | @cons p comma ps ts hcomma _ ih =>
    have hmore : balanced 0 (wordsOf [comma] ++ wordsOf ts) = true :=
      balanced_append (balanced_of_plain (by simp [hcomma, TokenKind.isParen]))
        (ih fun q hq => hps q (by simp [hq]))
    rw [wordsOf_append]
    exact balanced_append (hps p (by simp)) hmore

end Separated

/-- **Lists are split at their own commas and parentheses.**  A list that is read from
    an opening parenthesis on, and whose names are words, ends at the closing parenthesis
    that matches it.  The tokens of the source between the two are, with single commas
    between them, those of its fields: of each the name, the words of its mode, at most
    one `nocopy`, the tokens in the span of its type, and, behind `default` or `:=`,
    those in the span of its default value, if it has one.  In a type and in a default
    value parentheses are in pairs; outside them there is no comma, and in a type no
    `:=` and no `default` either. -/
theorem fieldList_splits {file : String} {text : List Char} {t : DocToken}
    {us rest : List DocToken} {l : FieldList} (hts : t :: us <:+ (Input.ofText file text).tokens)
    (hopen : t.kind = .op .openParen)
    (h : Parser.fieldList.Returns (Input.ofText file text) (t :: us) l rest)
    (hnames : ∀ f ∈ l.fields, ∀ n ∈ (scanText text).tokens, n.span = f.name.span →
      n.kind.isWord = true) :
    ∃ (before : List Token) (inner : List DocToken) (close : DocToken) (ps : List FieldPart),
      (scanText text).tokens.filter (·.kind ≠ .comment) =
        before ++ t.token :: plainTokens inner ++ close.token :: plainTokens rest ∧
      balanced 0 (wordsOf (t :: inner ++ [close])) = true ∧ balanced 0 (wordsOf inner) = true ∧
      close.kind = .op .closeParen ∧ l.opening = t.span.start ∧ l.closing = close.span.start ∧ Separated ps inner ∧
      List.Forall₂ (fun p f => p.Gives f ∧ p.Spans (scanText text).tokens f) ps l.fields := by
  have hi := Input.scanned_ofText file text
  obtain ⟨before, hbefore⟩ := hts
  obtain ⟨ps, inner, close, rfl, hclose, hopening, hclosing, hps, hfields⟩ :=
    Parser.tokens_fieldList hi.eof_kind h
  have hinside : ∀ p ∈ ps, p.tokens <:+: (Input.ofText file text).tokens := by
    intro p hp
    refine (hps.isInfix p hp).trans ⟨before ++ [t], close :: rest, ?_⟩
    simp [← hbefore]
  have hspans : List.Forall₂ (fun p f => p.Gives f ∧ p.Spans (scanText text).tokens f)
      ps l.fields := by
    obtain ⟨hlength, hzip⟩ := List.forall₂_iff_zip.1 hfields
    refine List.forall₂_iff_zip.2 ⟨hlength, fun hmem => ⟨hzip hmem, ?_⟩⟩
    rw [← Input.raw_ofText file]
    exact (hzip hmem).spans hi (hinside _ (List.of_mem_zip hmem).1)
  have hbalanced : ∀ p ∈ ps, balanced 0 (wordsOf p.tokens) = true := by
    obtain ⟨hlength, hzip⟩ := List.forall₂_iff_zip.1 hfields
    have hall : List.Forall₂ (fun p f => balanced 0 (wordsOf p.tokens) = true ∧ True)
        ps l.fields := by
      refine List.forall₂_iff_zip.2 ⟨hlength, fun {p f} hmem => ⟨?_, trivial⟩⟩
      obtain ⟨hp, hf⟩ := List.of_mem_zip hmem
      obtain ⟨first, -, hfield⟩ := (hzip hmem).field
      have hname : p.name ∈ (Input.ofText file text).tokens :=
        (hinside p hp).subset (by simp [FieldPart.tokens])
      refine (hzip hmem).inPairs (hnames f hf p.name.token ?_ (by rw [hfield]; rfl))
      rw [← Input.raw_ofText file]
      exact Input.Scanned.mem_raw hname
    exact ((List.forall₂_and_left ps l.fields).1 hall).1
  have hinner := hps.inPairs hbalanced
  refine ⟨plainTokens before, inner, close, ps, ?_, ?_, hinner, hclose, hopening, hclosing, hps,
    hspans⟩
  · rw [← Input.plainTokens_ofText file, ← hbefore]
    simp [plainTokens]
  · rw [wordsOf_append, wordsOf_cons]
    exact balanced_group hopen hinner hclose

/-- A list with nested parentheses, with reserved words as names and with commas inside
    a type and a default value. -/
def nestedList : List Char :=
  "(out in out nocopy t(1, 2) default f(a, (b)), type number :=)".toList

theorem fieldList_splits_nested :
    ∃ t us l rest, (Input.ofText "" nestedList).tokens = t :: us ∧
      Parser.fieldList.Returns (Input.ofText "" nestedList) (t :: us) l rest ∧
      l.fields.map (·.listing) = ["out in out t(1,2) default f(a,(b))", "type number"] ∧
      ∃ (before : List Token) (inner : List DocToken) (close : DocToken) (ps : List FieldPart),
        (scanText nestedList).tokens.filter (·.kind ≠ .comment) =
          before ++ t.token :: plainTokens inner ++ close.token :: plainTokens rest ∧
        l.closing = close.span.start ∧ Separated ps inner ∧
        List.Forall₂ (fun p f => p.Gives f ∧ p.Spans (scanText nestedList).tokens f)
          ps l.fields := by
  have hfirst : (Input.ofText "" nestedList).tokens.head?.map (·.kind) = some (.op .openParen) := by
    decide +kernel
  have hrun : ((Parser.fieldList.outcome (Input.ofText "" nestedList)
      (Input.ofText "" nestedList).tokens).toOption.map fun x => (x.1.fields.map (·.listing),
        x.1.fields.all fun f => (scanText nestedList).tokens.all fun n =>
          n.span ≠ f.name.span || n.kind.isWord)) =
      some (["out in out t(1,2) default f(a,(b))", "type number"], true) := by
    decide +kernel
  obtain ⟨t, hhead, hopen⟩ := Option.map_eq_some_iff.1 hfirst
  obtain ⟨us, htokens⟩ := List.head?_eq_some_iff.1 hhead
  cases houtcome : Parser.fieldList.outcome (Input.ofText "" nestedList)
      (Input.ofText "" nestedList).tokens with
  | error e =>
    rw [houtcome] at hrun
    cases hrun
  | ok x =>
    obtain ⟨l, rest⟩ := x
    rw [houtcome] at hrun
    simp only [Except.toOption, Option.map_some, Option.some.injEq, Prod.mk.injEq] at hrun
    have hreturns : Parser.fieldList.Returns (Input.ofText "" nestedList) (t :: us) l rest := by
      rw [← htokens]
      exact houtcome
    have hwhole : t :: us <:+ (Input.ofText "" nestedList).tokens := htokens ▸ List.suffix_refl _
    obtain ⟨before, inner, close, ps, htext, -, -, -, -, hclosing, hps, hfields⟩ :=
      fieldList_splits hwhole hopen hreturns fun f hf n hn hspan => by
        have hall := List.all_eq_true.1 (List.all_eq_true.1 hrun.2 f hf) n hn
        simpa [hspan] using hall
    exact ⟨t, us, l, rest, htokens, hreturns, hrun.1, before, inner, close, ps, htext, hclosing,
      hps, hfields⟩

end PackageDoc
