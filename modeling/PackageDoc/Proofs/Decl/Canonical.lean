/-
  Declarations in canonical form.

  A text is canonical if it is put together from its own tokens, without comments
  and semicolons and with its parentheses in pairs.  A declaration is canonical
  (`Item.isCanonical`) if its names are words, its texts are canonical, and no
  text holds a word that would be read as the end of it.  The listing of such a
  declaration spells the words of `Item.words` (`Item.spells_listing`), which for a
  cursor are those before its query, and a package is written as its listings one
  after the other (`packageText`).
-/
import PackageDoc.Package
import PackageDoc.Parser.Fields
import PackageDoc.Proofs.Token.Spelling

namespace PackageDoc

open Text

/-! ## Canonical texts -/

/-- Whether the parentheses of some words are in pairs, `depth` of them being
    open before. -/
def balanced (depth : Nat) : List (TokenKind × String) → Bool
  | [] => depth = 0
  | w :: ws =>
    if w.1 = .op .closeParen && depth = 0 then false else balanced (depthAfter depth w.1) ws

/-- The words that stand outside parentheses, `depth` of them being open before. -/
def outerWords (depth : Nat) : List (TokenKind × String) → List (TokenKind × String)
  | [] => []
  | w :: ws => (if depth = 0 then [w] else []) ++ outerWords (depthAfter depth w.1) ws

/-- The words of a canonical text. -/
def canonicalWords? (text : String) : Option (List (TokenKind × String)) :=
  (tokens? text.toUTF8).bind fun ts =>
    if ts ≠ [] ∧ (∀ t ∈ ts, t.kind ≠ .comment ∧ t.kind ≠ .op .semicolon) ∧
        balanced 0 (ts.map Token.word) = true ∧ tokensText ts = text then
      some (ts.map Token.word)
    else none

/-- Whether a text is canonical, with words that satisfy `p`. -/
def Ident.isCanonical (x : Ident) (p : List (TokenKind × String) → Bool) : Bool :=
  (canonicalWords? x.name).any p

/-- The words of a text, none if it is not canonical. -/
def Ident.words (x : Ident) : List (TokenKind × String) := (canonicalWords? x.name).getD []

/-- Whether no word outside parentheses satisfies `p`. -/
def outsideNone (p : TokenKind → Bool) (ws : List (TokenKind × String)) : Bool :=
  (outerWords 0 ws).all fun w => !p w.1

/-! ## Canonical declarations -/

/-- Whether a text is a word that is not reserved. -/
def isName (s : String) : Bool := isWord s && wordKind s = .ident

namespace Field

/-- Whether `not` and `null` stand next to each other. -/
def saysNotNull (ws : List (TokenKind × String)) : Bool :=
  (ws.zip ws.tail).any fun (w, v) => w.1 = .keyword .not && v.1 = .keyword .null

/-- Whether the text can be the type of a variable or a constant: it does not
    look like a constant, an exception or a default value. -/
def isDeclaredType (f : Field) (x : Ident) : Bool :=
  x.isCanonical fun ws => outsideNone startsDefault ws && f.notNull == saysNotNull ws &&
    (f.kind = .constant ||
      ws.head?.all fun w => w.1 ≠ .keyword .constant && w.1 ≠ .keyword .exception)

/-- Whether a variable, a constant or an exception is canonical. -/
def isDeclared (f : Field) : Bool :=
  isName f.name.name && f.doc = none && f.mode = .unstated &&
    match f.kind with
    | .variable_ | .constant =>
      f.type?.any f.isDeclaredType && f.default?.all (·.isCanonical fun _ => true)
    | .exception => f.type? = none && f.default? = none && !f.notNull
    | .parameter => false

/-- Whether a parameter or a field of a record is canonical. -/
def isListed (f : Field) : Bool :=
  isWord f.name.name && f.doc = none && f.kind = .parameter && !f.notNull &&
    f.type?.any (·.isCanonical fun ws =>
      (ws.head?.any fun w => w.1 = .ident && w.2 ≠ "nocopy") &&
        outsideNone (fun kind => kind = .op .comma || startsDefault kind) ws) &&
    f.default?.all (·.isCanonical (outsideNone (· = .op .comma)))

end Field

/-- Whether the fields of a list are canonical, and there are some. -/
def FieldList.isCanonical (l : FieldList) : Bool := !l.fields.isEmpty && l.fields.all (·.isListed)

/-- Whether a subtype is canonical. -/
def Subtype.isCanonical (s : Subtype) : Bool :=
  isName s.name.name && s.doc = none && s.base.isCanonical fun _ => true

/-- Whether a word ends the type of a function's result. -/
def isModifier (w : TokenKind × String) : Bool :=
  w.1 = .keyword .pipelined || w.1 = .keyword .deterministic || w.1 = .keyword .resultCache ||
    (w.1 = .ident && w.2 == "parallel_enable")

/-- Whether a routine is canonical: a function has a result, and a procedure has
    neither a result nor modifiers. -/
def Routine.isCanonical (r : Routine) : Bool :=
  isName r.name.name && r.doc = none && r.params.all (·.isCanonical) &&
    match r.kind with
    | .function => r.result.any (·.isCanonical fun ws => ws.all (!isModifier ·))
    | .procedure => r.result = none && !r.pipelined && !r.deterministic && !r.resultCache

/-- Whether a text is a query that a semicolon ends: it starts with a token that
    is no comment, and only the semicolon behind it is one. -/
def isQuery (text : String) : Bool :=
  (tokens? (text ++ ";").toUTF8).any fun ts =>
    (ts.head?.any fun t => t.kind ≠ .comment && t.span.start = 0) &&
      ts.dropLast.all (·.kind ≠ .op .semicolon) && ts.getLast?.any (·.kind = .op .semicolon)

/-- Whether a cursor is canonical. -/
def Cursor.isCanonical (c : Cursor) : Bool :=
  isName c.name.name && c.doc = none && c.params.all (·.isCanonical) &&
    c.result.all (·.isCanonical fun ws => ws.all (·.1 ≠ .keyword .is)) &&
    (c.sql.text.isEmpty || isQuery c.sql.text)

/-- Whether the definition of a type is canonical. -/
def TypeBody.isCanonical : TypeBody → Bool
  | table element => element.isCanonical fun _ => true
  | varray bound element =>
    bound.all (·.isCanonical fun _ => true) && element.isCanonical fun _ => true
  | record fields => fields.isCanonical
  | refCursor result => result.all (·.isCanonical fun _ => true)

/-- Whether a declaration is canonical. -/
def Item.isCanonical : Item → Bool
  | field f => f.isDeclared
  | subtype s => s.isCanonical
  | routine r => r.isCanonical
  | cursor c => c.isCanonical
  | type t => isName t.name.name && t.doc = none && t.body.isCanonical

/-! ## Packages as text -/

/-- The signature of a declaration. -/
def Item.listing : Item → String
  | field f => f.listing
  | subtype s => s.listing
  | routine r => r.listing
  | cursor c => c.listing
  | type t => t.listing

/-- A package with the given declarations, as text. -/
def packageText (name : String) (items : List Item) : String :=
  "create package " ++ name ++ " is\n" ++ String.join (items.map fun item => item.listing ++ ";\n") ++
    "end " ++ name ++ ";"

/-! ## The words of canonical texts -/

/-- The text of some words. -/
def wordsText (ws : List (TokenKind × String)) : String :=
  tokensText (ws.map fun w => ⟨w.1, w.2, .none⟩)

theorem wordsText_word (ts : List Token) : wordsText (ts.map Token.word) = tokensText ts := by
  suffices h : ∀ apart, joinTokens apart ((ts.map Token.word).map fun w => ⟨w.1, w.2, .none⟩) =
      joinTokens apart ts from h false
  induction ts with
  | nil => exact fun apart => rfl
  | cons t ts ih =>
    intro apart
    show (if apart && t.kind.isWord then " " else "") ++ t.typeText ++
      joinTokens t.parts ((ts.map Token.word).map fun w => ⟨w.1, w.2, .none⟩) = _
    rw [ih]
    rfl

/-- What is known of a canonical text. -/
structure Ident.Spelled (x : Ident) : Prop where
  spells : Spells x.name.toList x.words
  ne_empty : x.name ≠ ""
  ne_nil : x.words ≠ []
  plain : ∀ w ∈ x.words, w.1 ≠ .comment
  inside : ∀ w ∈ x.words, w.1 ≠ .op .semicolon
  balanced : balanced 0 x.words = true
  text : wordsText x.words = x.name

theorem Ident.spelled_of_isCanonical {x : Ident} {p : List (TokenKind × String) → Bool}
    (h : x.isCanonical p = true) : x.Spelled ∧ p x.words = true := by
  obtain ⟨ws, hws, hp⟩ := (Option.any_eq_true p _).1 h
  have hwords : x.words = ws := by rw [Ident.words, hws, Option.getD_some]
  obtain ⟨ts, htokens, hts⟩ := Option.bind_eq_some_iff.1 hws
  split at hts
  · rename_i hcanonical
    obtain ⟨hne, hkinds, hbalanced, htext⟩ := hcanonical
    cases hts
    rw [hwords]
    refine ⟨?_, hp⟩
    constructor
    case spells =>
      rw [hwords]
      exact spells_text htokens (fun t ht => (hkinds t ht).1) htext
    case ne_empty =>
      intro hempty
      obtain ⟨gap, -, hscans⟩ := scans_of_tokens? htokens
      rw [hempty] at hscans
      exact hne hscans.of_nil.1
    case ne_nil =>
      rw [hwords]
      simpa using hne
    case plain =>
      rw [hwords]
      simpa [Token.word] using fun t ht => (hkinds t ht).1
    case inside =>
      rw [hwords]
      simpa [Token.word] using fun t ht => (hkinds t ht).2
    case balanced =>
      rw [hwords]
      exact hbalanced
    case text =>
      rw [hwords, wordsText_word]
      exact htext
  · cases hts

/-! ## The words of declarations -/

/-- A reserved word. -/
def Keyword.word (k : Keyword) : TokenKind × String := (.keyword k, k.spelling)

/-- An operator. -/
def Operator.word (o : Operator) : TokenKind × String := (.op o, o.spelling)

/-- A name. -/
def nameWord (s : String) : TokenKind × String := (wordKind s, s)

/-- The words of a mode. -/
def PassMode.words : PassMode → List (TokenKind × String)
  | unstated => []
  | input => [Keyword.in_.word]
  | output => [Keyword.out.word]
  | inputOutput => [Keyword.in_.word, Keyword.out.word]

namespace Field

/-- The words between the name of a field and its type. -/
def kindWords (f : Field) : List (TokenKind × String) :=
  match f.kind with
  | .variable_ => []
  | .constant => [Keyword.constant.word]
  | .exception => [Keyword.exception.word]
  | .parameter => f.mode.words

/-- The words of a default value. -/
def defaultWords (f : Field) : List (TokenKind × String) :=
  match f.default? with
  | none => []
  | some d => (if f.kind = .parameter then Keyword.default.word else Operator.assign.word) :: d.words

/-- The words of a field. -/
def words (f : Field) : List (TokenKind × String) :=
  nameWord f.name.name :: (f.kindWords ++ ((f.type?.map (·.words)).getD [] ++ f.defaultWords))

/-- The words of fields and of the parenthesis behind them. -/
def listWords : List Field → List (TokenKind × String)
  | [] => [Operator.closeParen.word]
  | [f] => f.words ++ [Operator.closeParen.word]
  | f :: g :: fs => f.words ++ Operator.comma.word :: listWords (g :: fs)

end Field

/-- The words of an optional list. -/
def listWords? (l? : Option FieldList) : List (TokenKind × String) :=
  match l? with
  | none => []
  | some l => Operator.openParen.word :: Field.listWords l.fields

/-- The words of an optional result. -/
def returnWords (x? : Option Ident) : List (TokenKind × String) :=
  match x? with
  | none => []
  | some x => Keyword.return_.word :: x.words

/-- The words of a subtype. -/
def Subtype.words (s : Subtype) : List (TokenKind × String) :=
  Keyword.subtype.word :: nameWord s.name.name :: Keyword.is.word :: s.base.words

/-- The modifiers of a routine. -/
def Routine.modifierWords (r : Routine) : List (TokenKind × String) :=
  (if r.pipelined then [Keyword.pipelined.word] else []) ++
    ((if r.deterministic then [Keyword.deterministic.word] else []) ++
      if r.resultCache then [Keyword.resultCache.word] else [])

/-- The words of a routine. -/
def Routine.words (r : Routine) : List (TokenKind × String) :=
  (match r.kind with
    | .function => Keyword.function.word
    | .procedure => Keyword.procedure.word) :: nameWord r.name.name ::
    (listWords? r.params ++ (returnWords r.result ++ r.modifierWords))

/-- The words of a cursor before its query. -/
def Cursor.words (c : Cursor) : List (TokenKind × String) :=
  Keyword.cursor.word :: nameWord c.name.name :: (listWords? c.params ++ returnWords c.result)

/-- The words of the bound of an array. -/
def boundWords (b? : Option Ident) : List (TokenKind × String) :=
  match b? with
  | none => []
  | some b => Operator.openParen.word :: (b.words ++ [Operator.closeParen.word])

/-- The words of the definition of a type. -/
def TypeBody.words : TypeBody → List (TokenKind × String)
  | table element => Keyword.table.word :: Keyword.of.word :: element.words
  | varray bound element =>
    Keyword.varray.word :: (boundWords bound ++ Keyword.of.word :: element.words)
  | record fields => Keyword.record.word :: listWords? (some fields)
  | refCursor result => Keyword.ref.word :: Keyword.cursor.word :: returnWords result

/-- The words of a type. -/
def TypeDecl.words (t : TypeDecl) : List (TokenKind × String) :=
  Keyword.type.word :: nameWord t.name.name :: Keyword.is.word :: t.body.words

/-- The query of a cursor, empty for any other declaration. -/
def Item.query : Item → String
  | cursor c => c.sql.text
  | _ => ""

/-- The words of a declaration, those of a cursor before its query. -/
def Item.words : Item → List (TokenKind × String)
  | field f => f.words
  | subtype s => s.words
  | routine r => r.words
  | cursor c => c.words
  | type t => t.words

/-! ## Words are no comments -/

/-- No word is a comment. -/
def Plain (ws : List (TokenKind × String)) : Prop := ∀ w ∈ ws, w.1 ≠ .comment

section
variable {w : TokenKind × String} {ws vs : List (TokenKind × String)}

@[simp]
theorem plain_nil : Plain [] := by simp [Plain]

@[simp]
theorem plain_cons : Plain (w :: ws) ↔ w.1 ≠ .comment ∧ Plain ws := List.forall_mem_cons

@[simp]
theorem plain_append : Plain (ws ++ vs) ↔ Plain ws ∧ Plain vs := List.forall_mem_append

end

@[simp]
theorem Keyword.plain_word (k : Keyword) : k.word.1 ≠ .comment := nofun

@[simp]
theorem Operator.plain_word (o : Operator) : o.word.1 ≠ .comment := nofun

@[simp]
theorem plain_nameWord (s : String) : (nameWord s).1 ≠ .comment := by
  unfold nameWord wordKind
  split <;> simp

@[simp]
theorem Ident.plain_words (x : Ident) : Plain x.words := by
  unfold Ident.words
  cases h : canonicalWords? x.name with
  | none => exact plain_nil
  | some ws =>
    have hx : x.isCanonical (fun _ => true) = true := by simp [Ident.isCanonical, h]
    obtain ⟨hspelled, -⟩ := Ident.spelled_of_isCanonical hx
    have hwords : x.words = ws := by rw [Ident.words, h, Option.getD_some]
    rw [Option.getD_some, ← hwords]
    exact hspelled.plain

@[simp]
theorem Field.plain_words (f : Field) : Plain f.words := by
  have hkind : Plain f.kindWords := by
    unfold kindWords
    cases f.kind with
    | parameter => cases f.mode <;> simp [PassMode.words]
    | _ => simp
  have htype : Plain ((f.type?.map (·.words)).getD []) := by
    cases f.type? <;> simp
  have hdefault : Plain f.defaultWords := by
    unfold defaultWords
    split
    · exact plain_nil
    · refine plain_cons.2 ⟨?_, Ident.plain_words _⟩
      split
      · exact Keyword.plain_word _
      · exact Operator.plain_word _
  simp [words, hkind, htype, hdefault]

@[simp]
theorem Field.plain_listWords (fs : List Field) : Plain (listWords fs) := by
  fun_induction listWords fs <;> simp_all

@[simp]
theorem plain_listWords? (l? : Option FieldList) : Plain (listWords? l?) := by
  cases l? <;> simp [listWords?]

@[simp]
theorem plain_returnWords (x? : Option Ident) : Plain (returnWords x?) := by
  cases x? <;> simp [returnWords]

theorem Routine.plain_words (r : Routine) : Plain r.words := by
  have hmodifiers : Plain r.modifierWords := by
    unfold modifierWords
    cases r.pipelined <;> cases r.deterministic <;> cases r.resultCache <;> simp
  cases hk : r.kind <;> simp [words, hk, hmodifiers]

theorem TypeBody.plain_words (d : TypeBody) : Plain d.words := by
  cases d with
  | varray bound element => cases bound <;> simp [words, boundWords]
  | _ => simp [words]

theorem Item.plain_words (item : Item) : Plain item.words := by
  cases item with
  | field f => exact f.plain_words
  | subtype s => simp [words, Subtype.words]
  | routine r => exact r.plain_words
  | cursor c => simp [words, Cursor.words]
  | type t => simp [words, TypeDecl.words, t.body.plain_words]

/-! ## Listings spell the words of declarations -/

section
variable {t : String} {ws : List (TokenKind × String)}

theorem spells_keyword_space (k : Keyword) (h : Spells t.toList ws) :
    Spells (k.spelling ++ (" " ++ t)).toList (k.word :: ws) :=
  (spells_keyword k).concat h.space (apart_space t)

theorem isEmpty_of_isWord {s : String} (h : isWord s = true) : s.isEmpty = false := by
  rw [Bool.eq_false_iff]
  intro hempty
  rw [String.isEmpty_iff.1 hempty] at h
  cases h

theorem isWord_of_isName {s : String} (h : isName s = true) : isWord s = true :=
  ((Bool.and_eq_true _ _).mp h).1

/-- Small letters, digits and underscores behind a letter or an underscore are a
    name, if the word is not reserved. -/
theorem isName_of_plain {s : String} {c : Char} {cs : List Char} (hs : s.toList = c :: cs)
    (hc : c.isDigit = false) (hall : (c :: cs).all isPlainNameChar = true)
    (hkind : wordKind s = .ident) : isName s = true :=
  (Bool.and_eq_true _ _).mpr ⟨isWord_of_plain hs hc hall, decide_eq_true hkind⟩

theorem spells_name {s : String} (hs : isWord s = true) (h : Spells t.toList ws) (ht : Apart t) :
    Spells (s ++ t).toList (nameWord s :: ws) :=
  (spells_word hs).concat h ht

end

namespace Field

variable {f : Field}

theorem apart_defaultText (f : Field) : Apart f.defaultText := by
  unfold defaultText
  split
  · exact apart_empty
  · split <;> simp [Apart, isSeparator, isSpacing]

theorem spells_defaultText {p : List (TokenKind × String) → Bool}
    (h : f.default?.all (·.isCanonical p) = true) :
    Spells f.defaultText.toList f.defaultWords := by
  unfold defaultText defaultWords
  cases hd : f.default? with
  | none => exact .nil
  | some d =>
    rw [hd] at h
    obtain ⟨hd', -⟩ := Ident.spelled_of_isCanonical h
    by_cases hkind : f.kind = .parameter
    · simp only [hkind, if_true]
      rw [show " default " = " " ++ (Keyword.default.spelling ++ " ") from rfl,
        String.append_assoc, String.append_assoc]
      exact (spells_keyword_space .default hd'.spells).space
    · simp only [hkind, if_false]
      rw [show " := " = " " ++ (":=" ++ " ") from rfl, String.append_assoc, String.append_assoc]
      exact (spells_assign.concat hd'.spells.space (apart_space _)).space

/-- The mode of a parameter, before its type. -/
theorem spells_mode (m : PassMode) {t : String} {ws : List (TokenKind × String)}
    (h : Spells t.toList ws) :
    Spells ((if m = .unstated then "" else " " ++ m.spelling) ++ (" " ++ t)).toList
        (m.words ++ ws) ∧
      Apart ((if m = .unstated then "" else " " ++ m.spelling) ++ (" " ++ t)) := by
  cases m with
  | unstated =>
    rw [if_pos rfl, String.empty_append]
    exact ⟨h.space, apart_space t⟩
  | input =>
    rw [if_neg (by simp), String.append_assoc]
    exact ⟨(spells_keyword_space .in_ h).space, apart_space _⟩
  | output =>
    rw [if_neg (by simp), String.append_assoc]
    exact ⟨(spells_keyword_space .out h).space, apart_space _⟩
  | inputOutput =>
    rw [if_neg (by simp), String.append_assoc,
      show PassMode.inputOutput.spelling = Keyword.in_.spelling ++ (" " ++ Keyword.out.spelling)
        from rfl, String.append_assoc, String.append_assoc]
    exact ⟨(spells_keyword_space .in_ (spells_keyword_space .out h)).space, apart_space _⟩

/-- A field with a type. -/
theorem spells_listing_typed {x : Ident} (hname : isWord f.name.name = true)
    (htype : f.type? = some x) (hx : x.Spelled) (hkind : f.kind ≠ .exception)
    (hdefault : Spells f.defaultText.toList f.defaultWords) :
    Spells f.listing.toList f.words := by
  have hne := isEmpty_of_isWord hname
  have htypeText : f.typeText = x.name := by simp [typeText, htype]
  have hxne : x.name.isEmpty = false := by simpa using hx.ne_empty
  have hrest := hx.spells.concat hdefault f.apart_defaultText
  have hwords : f.words = nameWord f.name.name :: (f.kindWords ++ (x.words ++ f.defaultWords)) := by
    simp [words, htype]
  rw [hwords]
  simp only [listing, htypeText, hne, hxne, Bool.false_and, Bool.or_self, Bool.false_eq_true,
    if_false, kindWords]
  cases hk : f.kind with
  | variable_ =>
    simp only [String.append_assoc]
    exact spells_name hname hrest.space (apart_space _)
  | constant =>
    simp only [String.append_assoc]
    rw [show " constant " = " " ++ (Keyword.constant.spelling ++ " ") from rfl]
    simp only [String.append_assoc]
    exact spells_name hname (spells_keyword_space .constant hrest).space (apart_space _)
  | exception => exact absurd hk hkind
  | parameter =>
    simp only [String.append_assoc]
    obtain ⟨hmode, hapart⟩ := spells_mode f.mode hrest
    exact spells_name hname hmode hapart

theorem cases_of_isDeclared (h : f.isDeclared = true) :
    isName f.name.name = true ∧ f.doc = none ∧ f.mode = .unstated ∧
      ((f.kind = .exception ∧ f.type? = none ∧ f.default? = none ∧ f.notNull = false) ∨
        ∃ x, (f.kind = .variable_ ∨ f.kind = .constant) ∧ f.type? = some x ∧
          f.isDeclaredType x = true ∧ f.default?.all (·.isCanonical fun _ => true) = true) := by
  simp only [isDeclared, Bool.and_eq_true, decide_eq_true_eq] at h
  obtain ⟨⟨⟨hname, hdoc⟩, hmode⟩, hkind⟩ := h
  refine ⟨hname, hdoc, hmode, ?_⟩
  cases hk : f.kind with
  | variable_ =>
    simp only [hk, Bool.and_eq_true, Option.any_eq_true] at hkind
    obtain ⟨⟨x, hx, htype⟩, hdefault⟩ := hkind
    exact .inr ⟨x, .inl rfl, hx, htype, hdefault⟩
  | constant =>
    simp only [hk, Bool.and_eq_true, Option.any_eq_true] at hkind
    obtain ⟨⟨x, hx, htype⟩, hdefault⟩ := hkind
    exact .inr ⟨x, .inr rfl, hx, htype, hdefault⟩
  | exception =>
    simp only [hk, Bool.and_eq_true, decide_eq_true_eq, Bool.not_eq_true'] at hkind
    obtain ⟨⟨htype, hdefault⟩, hnull⟩ := hkind
    exact .inl ⟨rfl, htype, hdefault, hnull⟩
  | parameter => simp [hk] at hkind

theorem parts_of_isListed (h : f.isListed = true) :
    isWord f.name.name = true ∧ f.doc = none ∧ f.kind = .parameter ∧ f.notNull = false ∧
      ∃ x, f.type? = some x ∧ x.isCanonical (fun ws =>
          (ws.head?.any fun w => w.1 = .ident && w.2 ≠ "nocopy") &&
            outsideNone (fun kind => kind = .op .comma || startsDefault kind) ws) = true ∧
        f.default?.all (·.isCanonical (outsideNone (· = .op .comma))) = true := by
  simp only [isListed, Bool.and_eq_true, decide_eq_true_eq, Bool.not_eq_true',
    Option.any_eq_true] at h
  obtain ⟨⟨⟨⟨⟨hname, hdoc⟩, hkind⟩, hnull⟩, x, hx, htype⟩, hdefault⟩ := h
  refine ⟨hname, hdoc, hkind, hnull, x, hx, ?_, hdefault⟩
  simpa [Ident.isCanonical] using htype

theorem spells_declared (h : f.isDeclared = true) : Spells f.listing.toList f.words := by
  obtain ⟨hname, -, -, ⟨hkind, htype, hdefault, -⟩ | ⟨x, hkind, htype, hx, hdefault⟩⟩ :=
    cases_of_isDeclared h
  · have hwords : f.words = nameWord f.name.name :: [Keyword.exception.word] := by
      simp [words, kindWords, defaultWords, hkind, htype, hdefault]
    have hlisting : f.listing = f.name.name ++ (" " ++ Keyword.exception.spelling) := by
      simp [listing, hkind, isEmpty_of_isWord (isWord_of_isName hname)]
      rfl
    rw [hwords, hlisting]
    exact spells_name (isWord_of_isName hname) (spells_keyword .exception).space (apart_space _)
  · exact spells_listing_typed (isWord_of_isName hname) htype (Ident.spelled_of_isCanonical hx).1
      (by rcases hkind with hkind | hkind <;> simp [hkind]) (spells_defaultText hdefault)

theorem spells_listed (h : f.isListed = true) : Spells f.listing.toList f.words := by
  obtain ⟨hname, -, hkind, -, x, htype, hx, hdefault⟩ := parts_of_isListed h
  exact spells_listing_typed hname htype (Ident.spelled_of_isCanonical hx).1 (by simp [hkind])
    (spells_defaultText hdefault)

end Field

/-- Fields on lines of their own, up to the parenthesis behind them. -/
theorem spells_fields {fs : List Field} (hne : fs ≠ []) (h : ∀ f ∈ fs, f.isListed = true) :
    Spells (String.intercalate ",\n" (fs.map (FieldList.margin ++ ·.listing)) ++ "\n)").toList
      (Field.listWords fs) := by
  have hmargin : Spacing FieldList.margin.toList := by
    simp [FieldList.margin, Spacing, isSpacing]
  induction fs with
  | nil => exact absurd rfl hne
  | cons f fs ih =>
    have hf := Field.spells_listed (h f (by simp))
    cases fs with
    | nil =>
      have hclose := (spells_closeParen (t := "") .nil).newline
      have hspells := (hf.concat hclose (apart_newline _)).blank hmargin
      rw [List.map_singleton, String.intercalate_singleton, String.append_assoc,
        show "\n)" = "\n" ++ (")" ++ "") from rfl]
      exact hspells
    | cons g fs =>
      have hcomma := spells_comma (ih (by simp) fun f hf => h f (by simp [hf])).newline
      have hspells := (hf.concat hcomma (apart_comma _)).blank hmargin
      rw [List.map_cons, List.map_cons, String.intercalate_cons_cons,
        show ",\n" = "," ++ "\n" from rfl]
      simp only [String.append_assoc]
      exact hspells

/-- The listing of an optional list, and what follows it. -/
theorem spells_list? {l? : Option FieldList} (h : l?.all (·.isCanonical) = true) {t : String}
    {ws : List (TokenKind × String)} (ht : Spells t.toList ws) (hapart : Apart t) :
    Spells (listing? l? ++ t).toList (listWords? l? ++ ws) ∧ Apart (listing? l? ++ t) := by
  cases l? with
  | none =>
    rw [show listing? none = "" from rfl, String.empty_append]
    exact ⟨ht, hapart⟩
  | some l =>
    simp only [Option.all_some, FieldList.isCanonical, Bool.and_eq_true, Bool.not_eq_true',
      List.all_eq_true] at h
    obtain ⟨hne, hfields⟩ := h
    have hfields := (spells_fields (by simpa using hne) hfields).newline
    have hspells := spells_openParen (hfields.concat ht hapart)
    rw [show listing? (some l) = l.listing from rfl, FieldList.listing, if_neg (by simpa using hne),
      show "(\n" = "(" ++ "\n" from rfl]
    simp only [String.append_assoc] at hspells ⊢
    exact ⟨hspells, apart_openParen _⟩

/-- The result of a routine or a cursor, in its listing. -/
def returnText (x? : Option Ident) : String :=
  match x? with
  | some x => " return " ++ x.name
  | none => ""

/-- The result of a routine or a cursor, and what follows it. -/
theorem spells_return {x? : Option Ident} {p : List (TokenKind × String) → Bool}
    (h : x?.all (·.isCanonical p) = true) {t : String} {ws : List (TokenKind × String)}
    (ht : Spells t.toList ws) (hapart : Apart t) :
    Spells (returnText x? ++ t).toList (returnWords x? ++ ws) ∧ Apart (returnText x? ++ t) := by
  cases x? with
  | none =>
    rw [returnText, String.empty_append]
    exact ⟨ht, hapart⟩
  | some x =>
    obtain ⟨hx, -⟩ := Ident.spelled_of_isCanonical h
    have hspells := (spells_keyword_space .return_ (hx.spells.concat ht hapart)).space
    rw [returnText, show " return " = " " ++ (Keyword.return_.spelling ++ " ") from rfl]
    simp only [String.append_assoc]
    exact ⟨hspells, apart_space _⟩

section
variable {t : String} {ws : List (TokenKind × String)}

theorem Subtype.spells_listing {s : Subtype} (h : s.isCanonical = true) (ht : Spells t.toList ws)
    (hapart : Apart t) : Spells (s.listing ++ t).toList (s.words ++ ws) := by
  simp only [Subtype.isCanonical, Bool.and_eq_true, decide_eq_true_eq] at h
  obtain ⟨⟨hname, -⟩, hbase⟩ := h
  obtain ⟨hx, -⟩ := Ident.spelled_of_isCanonical hbase
  have hbase := (spells_keyword_space .is (hx.spells.concat ht hapart)).space
  have hspells := spells_keyword_space .subtype
    (spells_name (isWord_of_isName hname) hbase (apart_space _))
  rw [Subtype.listing, show "subtype " = Keyword.subtype.spelling ++ " " from rfl,
    show " is " = " " ++ (Keyword.is.spelling ++ " ") from rfl]
  simp only [String.append_assoc]
  exact hspells

/-- The modifiers of a routine, and what follows them. -/
theorem Routine.spells_modifiers (r : Routine) (ht : Spells t.toList ws) (hapart : Apart t) :
    Spells (String.join (r.modifiers.map (" " ++ ·)) ++ t).toList (r.modifierWords ++ ws) ∧
      Apart (String.join (r.modifiers.map (" " ++ ·)) ++ t) := by
  have hmodifier (k : Keyword) (b : Bool) {t : String} {ws : List (TokenKind × String)}
      (ht : Spells t.toList ws) (hapart : Apart t) :
      Spells (String.join ((if b then [k.spelling] else []).map (" " ++ ·)) ++ t).toList
          ((if b then [k.word] else []) ++ ws) ∧
        Apart (String.join ((if b then [k.spelling] else []).map (" " ++ ·)) ++ t) := by
    cases b with
    | false => simpa using ⟨ht, hapart⟩
    | true =>
      rw [if_pos rfl, if_pos rfl, List.map_singleton, String.join_cons, String.join_nil,
        String.append_empty, String.append_assoc]
      exact ⟨((spells_keyword k).concat ht hapart).space, apart_space _⟩
  obtain ⟨hcache, hcache'⟩ := hmodifier .resultCache r.resultCache ht hapart
  obtain ⟨hdet, hdet'⟩ := hmodifier .deterministic r.deterministic hcache hcache'
  have hpipe := hmodifier .pipelined r.pipelined hdet hdet'
  simp only [Routine.modifiers, Routine.modifierWords, List.map_append, String.join_append,
    String.append_assoc, List.append_assoc]
  exact hpipe

theorem Routine.spells_listing {r : Routine} (h : r.isCanonical = true) (ht : Spells t.toList ws)
    (hapart : Apart t) : Spells (r.listing ++ t).toList (r.words ++ ws) := by
  simp only [Routine.isCanonical, Bool.and_eq_true, decide_eq_true_eq] at h
  obtain ⟨⟨⟨hname, -⟩, hparams⟩, hkind⟩ := h
  have hresult : r.result.all (·.isCanonical fun ws => ws.all (!isModifier ·)) = true := by
    cases hk : r.kind with
    | function =>
      rw [hk] at hkind
      obtain ⟨x, hx, hcanonical⟩ := (Option.any_eq_true _ _).1 hkind
      rw [hx]
      exact hcanonical
    | procedure =>
      simp only [hk, Bool.and_eq_true, decide_eq_true_eq] at hkind
      rw [hkind.1.1.1]
      rfl
  obtain ⟨hmodifiers, hmodifiers'⟩ := r.spells_modifiers ht hapart
  obtain ⟨hreturn, hreturn'⟩ := spells_return hresult hmodifiers hmodifiers'
  obtain ⟨hlist, hlist'⟩ := spells_list? hparams hreturn hreturn'
  have hrest := spells_name (isWord_of_isName hname) hlist hlist'
  have hlisting : r.listing = r.header ++ (" " ++ r.name.name) ++ listing? r.params ++
      returnText r.result ++ String.join (r.modifiers.map (" " ++ ·)) := by
    rw [Routine.listing, isEmpty_of_isWord (isWord_of_isName hname), if_neg (by simp)]
    rfl
  rw [hlisting]
  simp only [String.append_assoc, Routine.words, List.cons_append, List.append_assoc]
  cases hk : r.kind with
  | function =>
    rw [show r.header = Keyword.function.spelling by rw [Routine.header, hk]; rfl]
    exact spells_keyword_space .function hrest
  | procedure =>
    rw [show r.header = Keyword.procedure.spelling by rw [Routine.header, hk]; rfl]
    exact spells_keyword_space .procedure hrest

/-- The listing of a cursor before its query. -/
def Cursor.signatureText (c : Cursor) : String :=
  "cursor " ++ c.name.name ++ listing? c.params ++ returnText c.result

theorem Cursor.spells_signature {c : Cursor} (h : c.isCanonical = true) (ht : Spells t.toList ws)
    (hapart : Apart t) : Spells (c.signatureText ++ t).toList (c.words ++ ws) := by
  simp only [Cursor.isCanonical, Bool.and_eq_true, decide_eq_true_eq] at h
  obtain ⟨⟨⟨⟨hname, -⟩, hparams⟩, hresult⟩, -⟩ := h
  obtain ⟨hreturn, hreturn'⟩ := spells_return hresult ht hapart
  obtain ⟨hlist, hlist'⟩ := spells_list? hparams hreturn hreturn'
  have hspells := spells_keyword_space .cursor
    (spells_name (isWord_of_isName hname) hlist hlist')
  rw [Cursor.signatureText, show "cursor " = Keyword.cursor.spelling ++ " " from rfl]
  simp only [String.append_assoc, Cursor.words, List.cons_append, List.append_assoc]
  exact hspells

/-- The bound of an array, in the listing of its type. -/
def boundText (b? : Option Ident) : String :=
  match b? with
  | some b => "(" ++ b.name ++ ")"
  | none => ""

/-- The bound of an array, and what follows it. -/
theorem spells_bound {b? : Option Ident} {p : List (TokenKind × String) → Bool}
    (h : b?.all (·.isCanonical p) = true) (ht : Spells t.toList ws) (hapart : Apart t) :
    Spells (boundText b? ++ t).toList (boundWords b? ++ ws) ∧ Apart (boundText b? ++ t) := by
  cases b? with
  | none =>
    rw [boundText, String.empty_append]
    exact ⟨ht, hapart⟩
  | some b =>
    obtain ⟨hb, -⟩ := Ident.spelled_of_isCanonical h
    have hspells := spells_openParen (hb.spells.concat (spells_closeParen ht) (apart_closeParen _))
    simp only [boundText, boundWords, String.append_assoc, List.cons_append, List.append_assoc,
      List.nil_append]
    exact ⟨hspells, apart_openParen _⟩

/-- The definition of a type, in its listing. -/
def TypeBody.text (d : TypeBody) : String :=
  match d with
  | table element => Keyword.table.spelling ++ (" " ++ (Keyword.of.spelling ++ (" " ++ element.name)))
  | varray bound element => Keyword.varray.spelling ++ (boundText bound ++
      (" " ++ (Keyword.of.spelling ++ (" " ++ element.name))))
  | record fields => Keyword.record.spelling ++ fields.listing
  | refCursor result =>
    Keyword.ref.spelling ++ (" " ++ (Keyword.cursor.spelling ++ returnText result))

theorem TypeDecl.listing_eq (d : TypeDecl) :
    d.listing = "type " ++ d.name.name ++ " is " ++ d.body.text := by
  rw [← String.toList_inj]
  cases hd : d.body with
  | table element =>
    simp [TypeDecl.listing, TypeDecl.header, hd, TypeBody.header, TypeBody.text, Keyword.spelling]
  | varray bound element =>
    cases bound <;> simp [TypeDecl.listing, TypeDecl.header, hd, TypeBody.header, TypeBody.text,
      boundText, Keyword.spelling]
  | record fields =>
    simp [TypeDecl.listing, TypeDecl.header, hd, TypeBody.header, TypeBody.text, Keyword.spelling]
  | refCursor result =>
    cases result <;> simp [TypeDecl.listing, TypeDecl.header, hd, TypeBody.header, TypeBody.text,
      returnText, Keyword.spelling]

theorem TypeBody.spells_text {d : TypeBody} (h : d.isCanonical = true) (ht : Spells t.toList ws)
    (hapart : Apart t) : Spells (d.text ++ t).toList (d.words ++ ws) := by
  have hof (x : Ident) (hx : x.Spelled) :=
    (spells_keyword_space .of (hx.spells.concat ht hapart)).space
  cases d with
  | table element =>
    obtain ⟨hx, -⟩ := Ident.spelled_of_isCanonical h
    have hspells := (spells_keyword .table).concat (hof element hx) (apart_space _)
    simp only [TypeBody.text, String.append_assoc]
    exact hspells
  | varray bound element =>
    simp only [TypeBody.isCanonical, Bool.and_eq_true] at h
    obtain ⟨hx, -⟩ := Ident.spelled_of_isCanonical h.2
    obtain ⟨hbound, hbound'⟩ := spells_bound h.1 (hof element hx) (apart_space _)
    have hspells := (spells_keyword .varray).concat hbound hbound'
    simp only [TypeBody.text, TypeBody.words, String.append_assoc, List.cons_append,
      List.append_assoc]
    exact hspells
  | record fields =>
    have hfields : (some fields).all (·.isCanonical) = true := h
    obtain ⟨hlist, hlist'⟩ := spells_list? hfields ht hapart
    have hspells := (spells_keyword .record).concat hlist hlist'
    simp only [TypeBody.text, String.append_assoc]
    exact hspells
  | refCursor result =>
    obtain ⟨hreturn, hreturn'⟩ := spells_return h ht hapart
    have hcursor := (spells_keyword .cursor).concat hreturn hreturn'
    have hspells := (spells_keyword .ref).concat hcursor.space (apart_space _)
    simp only [TypeBody.text, String.append_assoc]
    exact hspells

/-- The listing of a type, and what follows it. -/
theorem TypeDecl.spells_listing {d : TypeDecl} (hname : isName d.name.name = true)
    (h : d.body.isCanonical = true) (ht : Spells t.toList ws) (hapart : Apart t) :
    Spells (d.listing ++ t).toList (d.words ++ ws) := by
  have hspells := spells_keyword_space .type (spells_name (isWord_of_isName hname)
    (spells_keyword_space .is (TypeBody.spells_text h ht hapart)).space (apart_space _))
  rw [d.listing_eq, show "type " = Keyword.type.spelling ++ " " from rfl,
    show " is " = " " ++ (Keyword.is.spelling ++ " ") from rfl]
  simp only [String.append_assoc]
  exact hspells

theorem Cursor.listing_of_empty {c : Cursor} (h : c.sql.text = "") : c.listing = c.signatureText := by
  have hlisting : c.listing = c.signatureText ++
      if c.sql.text.isEmpty then "" else " is\n" ++ c.sql.text := rfl
  rw [hlisting, if_pos (String.isEmpty_iff.2 h), String.append_empty]

/-- Behind its signature, a cursor has its query on lines of its own. -/
theorem Cursor.listing_of_query {c : Cursor} (h : c.isCanonical = true) (hne : c.sql.text ≠ "") :
    isQuery c.sql.text = true ∧
      c.listing = c.signatureText ++ (" " ++ Keyword.is.spelling) ++ ("\n" ++ c.sql.text) := by
  have hempty : ¬ c.sql.text.isEmpty = true := fun h => hne (String.isEmpty_iff.1 h)
  have hlisting : c.listing = c.signatureText ++
      if c.sql.text.isEmpty then "" else " is\n" ++ c.sql.text := rfl
  simp only [Cursor.isCanonical, Bool.and_eq_true, Bool.or_eq_true] at h
  refine ⟨h.2.resolve_left hempty, ?_⟩
  rw [hlisting, if_neg hempty, show " is\n" = " " ++ (Keyword.is.spelling ++ "\n") from rfl]
  simp only [String.append_assoc]

/-- The listing of a declaration without a query, and what follows it. -/
theorem Item.spells_listing {item : Item} (h : item.isCanonical = true) (hquery : item.query = "")
    (ht : Spells t.toList ws) (hapart : Apart t) :
    Spells (item.listing ++ t).toList (item.words ++ ws) := by
  cases item with
  | field f => exact (Field.spells_declared h).concat ht hapart
  | subtype s => exact Subtype.spells_listing h ht hapart
  | routine r => exact Routine.spells_listing h ht hapart
  | cursor c =>
    rw [Item.listing, Cursor.listing_of_empty hquery]
    exact Cursor.spells_signature h ht hapart
  | type d =>
    simp only [Item.isCanonical, Bool.and_eq_true] at h
    exact TypeDecl.spells_listing h.1.1 h.2 ht hapart

end

end PackageDoc
