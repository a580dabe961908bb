/-
  The texts of variables and of parameters.

  `v T := E` can declare a variable, up to a semicolon, and a parameter, between
  parentheses.  The two are read by different productions, and there are two ways
  to put their texts together: token by token into one draft (`TextDraft.pushAll`), or
  with each group in parentheses put together on its own and then added as a whole
  (`TextDraft.pushGroups`).  What is known of a draft is its text and whether a word
  behind it needs a space; a group ends with a parenthesis, behind which a word does,
  so both ways come to the same (`TextDraft.pushGroups_eq`).

  Main statement: `declared_texts_agree`.
-/
import PackageDoc.Proofs.Parser.Words

namespace PackageDoc

/-! ## Groups in parentheses -/

/-- What closes its parentheses leaves others open. -/
theorem balanced_append_of_balanced {depth n : Nat} {ws vs : List (TokenKind × String)}
    (h : balanced depth ws = true) : balanced (depth + n) (ws ++ vs) = balanced n vs := by
  induction ws generalizing depth with
  | nil =>
    have hdepth : depth = 0 := by simpa [balanced] using h
    rw [hdepth, Nat.zero_add, List.nil_append]
  | cons w ws ih =>
    unfold balanced at h
    split at h
    · cases h
    · rename_i hclose
      have hclose' : ¬ (w.1 = .op .closeParen && depth + n = 0) = true := by
        simp only [Bool.and_eq_true, decide_eq_true_eq, not_and] at hclose ⊢
        intro hw hsum
        exact hclose hw (by omega)
      rw [List.cons_append, balanced, if_neg hclose', depthAfter_add hclose, ih h]

/-- A parenthesis that is open is closed. -/
theorem splitNested_ne_nil {depth : Nat} {ts : List DocToken}
    (h : balanced (depth + 1) (wordsOf ts) = true) :
    (splitNested (fun _ => false) depth ts).2 ≠ [] := by
  induction ts generalizing depth with
  | nil => simp [balanced] at h
  | cons t ts ih =>
    unfold splitNested
    split
    · simp
    · rename_i hstop
      have hclose : ¬ (t.kind = .op .closeParen && depth = 0) = true := by
        simpa [and_comm] using hstop
      rw [wordsOf_cons] at h
      unfold balanced at h
      split at h
      · cases h
      · rw [depthAfter_add hclose] at h
        exact ih h

/-- Behind an open parenthesis stand a text, the parenthesis that closes it, and the rest. -/
theorem exists_group {t : DocToken} {ts : List DocToken} (ht : t.kind = .op .openParen)
    (h : balanced 0 (wordsOf (t :: ts)) = true) :
    ∃ inner close rest, splitNested (fun _ => false) 0 ts = (inner, close :: rest) ∧
      ts = inner ++ close :: rest ∧ close.kind = .op .closeParen ∧
      balanced 0 (wordsOf rest) = true := by
  have hopen : balanced 1 (wordsOf ts) = true := by
    simpa [balanced, ht, depthAfter] using h
  have hne := splitNested_ne_nil hopen
  obtain ⟨hinner, -⟩ := balanced_splitNested hne
  have hsplit := splitNested_append (fun _ => false) 0 ts
  generalize hparts : splitNested (fun _ => false) 0 ts = parts at hne hinner hsplit
  obtain ⟨inner, after⟩ := parts
  obtain ⟨close, rest, rfl⟩ := List.exists_cons_of_ne_nil hne
  have hclose : close.kind = .op .closeParen := by
    simpa using Parser.kind_of_splitNested (congrArg Prod.snd hparts)
  refine ⟨inner, close, rest, rfl, hsplit.symm, hclose, ?_⟩
  rw [← hsplit, wordsOf_append, ← Nat.zero_add 1, balanced_append_of_balanced hinner] at hopen
  simpa [balanced, hclose, depthAfter] using hopen

/-! ## Drafts of texts -/

/-- A text that is being put together, and whether a word behind it needs a space. -/
structure TextDraft where
  text : String := ""
  apart : Bool := false

namespace TextDraft

/-- The draft with one more token. -/
def push (d : TextDraft) (t : Token) : TextDraft :=
  ⟨d.text ++ (if d.apart && t.kind.isWord then " " else "") ++ t.typeText, t.parts⟩

/-- The draft with some tokens, one after the other. -/
def pushAll (d : TextDraft) (ts : List Token) : TextDraft := ts.foldl push d

/-- The draft with a text that was put together on its own. -/
def splice (d : TextDraft) (group : String) : TextDraft :=
  ⟨d.text ++ group, group.toList.getLast? = some ')'⟩

/-- The draft with some tokens, where what stands in parentheses is put together on its
    own, the parentheses included. -/
def pushGroups (d : TextDraft) : List DocToken → TextDraft
  | [] => d
  | t :: ts =>
    if t.kind = .op .openParen then
      let split := splitNested (fun _ => false) 0 ts
      let group := pushAll {} (plainTokens (t :: split.1 ++ split.2.take 1))
      (d.splice group.text).pushGroups (split.2.drop 1)
    else (d.push t.token).pushGroups ts
termination_by ts => ts.length
decreasing_by
  · have hlength := congrArg List.length (splitNested_append (fun _ => false) 0 ts)
    simp only [List.length_append, List.length_drop, List.length_cons] at hlength ⊢
    omega
  · simp

theorem text_pushAll (d : TextDraft) (ts : List Token) :
    (d.pushAll ts).text = d.text ++ joinTokens d.apart ts := by
  induction ts generalizing d with
  | nil => simp [pushAll, joinTokens]
  | cons t ts ih =>
    rw [pushAll, List.foldl_cons, ← pushAll, ih, push, joinTokens]
    simp only [String.append_assoc]

theorem text_pushAll_empty (ts : List Token) : (pushAll {} ts).text = tokensText ts := by
  rw [text_pushAll, tokensText]
  exact String.empty_append

theorem pushAll_append (d : TextDraft) (ts us : List Token) :
    d.pushAll (ts ++ us) = (d.pushAll ts).pushAll us :=
  List.foldl_append

/-- A group that is put together on its own adds what its tokens add one by one. -/
theorem splice_group (d : TextDraft) {t close : Token} (ts : List Token)
    (ht : t.kind = .op .openParen) (hclose : close.kind = .op .closeParen)
    (hlexeme : close.lexeme = ")") :
    d.splice (pushAll {} (t :: ts ++ [close])).text = d.pushAll (t :: ts ++ [close]) := by
  have hword : t.kind.isWord = false := by rw [ht]; rfl
  have hfront : joinTokens d.apart (t :: ts ++ [close]) = tokensText (t :: ts ++ [close]) := by
    simp [tokensText, joinTokens, hword]
  obtain ⟨front, hback⟩ := joinTokens_getLast false (t :: ts) close
  have hlast : (tokensText (t :: ts ++ [close])).toList.getLast? = some ')' := by
    rw [tokensText, hback]
    simp [Token.typeText, hclose, hlexeme]
  have hapart : (d.pushAll (t :: ts ++ [close])).apart = true := by
    rw [pushAll_append]
    simp [pushAll, push, Token.parts, hclose]
  have htext := text_pushAll d (t :: ts ++ [close])
  rw [splice, text_pushAll_empty, hlast]
  cases hdraft : d.pushAll (t :: ts ++ [close]) with
  | mk text apart =>
    rw [hdraft] at htext hapart
    simp_all

/-- **Groups make no difference**, if parentheses are in pairs. -/
theorem pushGroups_eq (d : TextDraft) {ts : List DocToken} (h : balanced 0 (wordsOf ts) = true)
    (hclose : ∀ t ∈ ts, t.kind = .op .closeParen → t.lexeme = ")") :
    d.pushGroups ts = d.pushAll (plainTokens ts) := by
  induction hn : ts.length using Nat.strongRecOn generalizing d ts with
  | _ n ih =>
    cases ts with
    | nil =>
      rw [pushGroups]
      rfl
    | cons t ts =>
      rw [pushGroups]
      split
      · rename_i ht
        obtain ⟨inner, close, rest, hsplit, rfl, hkind, hrest⟩ := exists_group ht h
        have hgroup := splice_group d (plainTokens inner) ht
          (show close.token.kind = .op .closeParen from hkind) (hclose close (by simp) hkind)
        have hplain : plainTokens (t :: inner ++ [close]) =
            t.token :: plainTokens inner ++ [close.token] := by simp [plainTokens]
        have hmore := ih rest.length (by simp at hn; omega)
          (d.pushAll (t.token :: plainTokens inner ++ [close.token])) hrest
          (fun t ht => hclose t (by simp [ht])) rfl
        simp only [hsplit, List.take_succ_cons, List.take_zero, List.drop_succ_cons, List.drop_zero]
        rw [hplain, hgroup, hmore, ← pushAll_append]
        simp [plainTokens]
      · rename_i ht
        have hts : balanced 0 (wordsOf ts) = true := by
          rw [wordsOf_cons] at h
          unfold balanced at h
          split at h
          · cases h
          · simpa [depthAfter, ht] using h
        exact ih ts.length (by simp at hn; omega) (d.push t.token) hts
          (fun t ht => hclose t (by simp [ht])) rfl

end TextDraft

/-! ## Declarations in both places -/

/-- The tokens of a name, its type and its default value. -/
structure Declared where
  name : DocToken
  type : List DocToken
  /-- `:=` or `default` -/
  opening : DocToken
  value : List DocToken

namespace Declared

/-- The tokens in their order. -/
def tokens (d : Declared) : List DocToken := d.name :: d.type ++ d.opening :: d.value

/-- The type starts with a name and can be followed by a default value; this, which may
    be empty, can be followed by a comma; and there is no semicolon. -/
structure Proper (d : Declared) : Prop where
  name : d.name.kind = .ident
  first : ∃ t ∈ d.type.head?, t.kind = .ident ∧ t.lexeme ≠ "nocopy"
  type : balanced 0 (wordsOf d.type) = true ∧
    outsideNone (fun kind => kind = .op .comma || startsDefault kind) (wordsOf d.type) = true
  opening : startsDefault d.opening.kind = true
  value : balanced 0 (wordsOf d.value) = true ∧ outsideNone (· = .op .comma) (wordsOf d.value) = true
  oneStatement : ∀ t ∈ d.type ++ d.value, t.kind ≠ .op .semicolon

instance (d : Declared) : Decidable d.Proper :=
  decidable_of_iff (d.name.kind = .ident ∧ (∃ t ∈ d.type.head?, t.kind = .ident ∧ t.lexeme ≠ "nocopy") ∧
    (balanced 0 (wordsOf d.type) = true ∧
      outsideNone (fun kind => kind = .op .comma || startsDefault kind) (wordsOf d.type) = true) ∧
    startsDefault d.opening.kind = true ∧
    (balanced 0 (wordsOf d.value) = true ∧
      outsideNone (· = .op .comma) (wordsOf d.value) = true) ∧
    ∀ t ∈ d.type ++ d.value, t.kind ≠ .op .semicolon)
    ⟨fun ⟨hname, hfirst, htype, hopening, hvalue, hone⟩ =>
      ⟨hname, hfirst, htype, hopening, hvalue, hone⟩,
      fun h => ⟨h.name, h.first, h.type, h.opening, h.value, h.oneStatement⟩⟩

/-- Some tokens as those of a declaration. -/
def ofTokens? : List DocToken → Option Declared
  | [] => none
  | name :: ts =>
    match ts.dropWhile (!startsDefault ·.kind) with
    | [] => none
    | opening :: value => some ⟨name, ts.takeWhile (!startsDefault ·.kind), opening, value⟩

/-- Two declarations of the same name, with the same words. -/
structure Same (d e : Declared) : Prop where
  name : d.name.lexeme = e.name.lexeme
  type : wordsOf d.type = wordsOf e.type
  value : wordsOf d.value = wordsOf e.value

instance (d e : Declared) : Decidable (d.Same e) :=
  decidable_of_iff (d.name.lexeme = e.name.lexeme ∧ wordsOf d.type = wordsOf e.type ∧
    wordsOf d.value = wordsOf e.value)
    ⟨fun ⟨hname, htype, hvalue⟩ => ⟨hname, htype, hvalue⟩, fun h => ⟨h.name, h.type, h.value⟩⟩

variable {d : Declared}

theorem Proper.ne_semicolon (hd : d.Proper) :
    ∀ t ∈ d.type ++ d.opening :: d.value, t.kind ≠ .op .semicolon := by
  intro t ht
  rcases List.mem_append.1 ht with ht | ht
  · exact hd.oneStatement t (by simp [ht])
  · rcases List.mem_cons.1 ht with rfl | ht
    · intro hkind
      have hopening := hd.opening
      rw [hkind] at hopening
      cases hopening
    · exact hd.oneStatement t (by simp [ht])

end Declared

namespace Parser

variable {i : Input} {d : Declared} {s o c : DocToken} {after : List DocToken}

/-- A move to a token that is there runs into no fault. -/
theorem Reaches.cons (passed : List DocToken) (t : DocToken) (ts : List DocToken) :
    Reaches i passed (t :: ts) := by
  simp [Reaches]

theorem returns_advance_cons (t u : DocToken) (ts : List DocToken) :
    Returns advance i (t :: u :: ts) () (u :: ts) :=
  returns_advance.2 ⟨rfl, Reaches.cons [t] u ts⟩

/-- A variable is read up to its semicolon. -/
theorem variableField_declared (after : List DocToken) (hd : d.Proper)
    (hs : s.kind = .op .semicolon) :
    ∃ pos notNull, Returns variableField i (d.tokens ++ s :: after)
      (.ofVariable d.name.leadDoc ⟨d.name.lexeme, d.name.span⟩ (.ofTokens pos (plainTokens d.type))
        (Ident.ofTokens? (plainTokens d.value)) notNull) (s :: after) := by
  obtain ⟨t, hhead, hkind, -⟩ := hd.first
  obtain ⟨ts, hts⟩ := List.head?_eq_some_iff.1 hhead
  have houter : (outerWords 0 (wordsOf d.type)).all (fun w => !startsDefault w.1) = true := by
    have houter := hd.type.2
    simp only [outsideNone, List.all_eq_true] at houter ⊢
    intro w hw
    have hw := houter w hw
    simp_all
  have hsplit := (splitDefault_of_balanced hd.type.1 houter).2 d.opening d.value hd.opening
  obtain ⟨htake, hdrop⟩ := takeWhile_append_stop
    (p := fun u : DocToken => !decide (u.kind = .op .semicolon)) (d.type ++ d.opening :: d.value) (s :: after) (by simpa using hd.ne_semicolon) (by simp [hs])
  have hbody : Returns (takeTo (·.kind = .op .semicolon)) i
      (d.type ++ d.opening :: d.value ++ s :: after) (d.type ++ d.opening :: d.value)
      (s :: after) := by
    rw [returns_takeTo, htake, hdrop]
    exact ⟨rfl, rfl, .cons _ _ _⟩
  refine ⟨t.span.start, saysNotNull d.type, ?_⟩
  rw [Declared.tokens, List.cons_append, List.cons_append]
  refine (Returns.current d.name _).bind ((Returns.name hd.name _).bind ?_)
  have hfront : d.type ++ d.opening :: d.value ++ s :: after =
      t :: (ts ++ d.opening :: d.value ++ s :: after) := by rw [hts]; rfl
  rw [hfront] at hbody ⊢
  refine (returns_advance_cons d.name t _).bind ?_
  refine (Returns.isAt _ t _).bind (.else_ (by simp [hkind]) ?_)
  refine (Returns.isAt _ t _).bind (.else_ (by simp [hkind]) ?_)
  refine (Returns.current t _).bind (hbody.bind ?_)
  rw [hsplit]
  simp [hkind]

/-- A text with its parentheses in pairs is passed over up to what ends it. -/
theorem takeNested_balanced {stop : TokenKind → Bool} {ds : List DocToken} {u : DocToken}
    (hbalanced : balanced 0 (wordsOf ds) = true) (houter : outsideNone stop (wordsOf ds) = true)
    (hu : u.kind = .op .closeParen ∨ stop u.kind = true) (rest : List DocToken) :
    Returns (takeNested stop) i (ds ++ u :: rest) ds (u :: rest) := by
  have hsplit : splitNested stop 0 (ds ++ u :: rest) = (ds, u :: rest) :=
    @splitNested_of_balanced stop 0 ds hbalanced houter u hu rest
  rw [takeNested, returns_passTo, hsplit]
  exact ⟨rfl, rfl, .cons _ _ _⟩

/-- A parameter is read up to what stands behind it. -/
theorem param_declared (after : List DocToken) (hd : d.Proper) {u : DocToken}
    (hu : u.kind = .op .closeParen ∨ u.kind = .op .comma) :
    ∃ pos, Returns param i (d.tokens ++ u :: after)
      (.ofParameter d.name.fieldDoc ⟨d.name.lexeme, d.name.span⟩ .unstated
        (.ofTokens pos (plainTokens d.type)) (Ident.ofTokens? (plainTokens d.value)))
      (u :: after) := by
  obtain ⟨t, hhead, hkind, hcopy⟩ := hd.first
  obtain ⟨ts, hts⟩ := List.head?_eq_some_iff.1 hhead
  have htype := takeNested_balanced (i := i) hd.type.1 hd.type.2 (u := d.opening)
    (.inr (by simp [hd.opening])) (d.value ++ u :: after)
  have hvalue := takeNested_balanced (i := i) hd.value.1 hd.value.2 (u := u) (by simpa using hu) after
  have hdefault : Returns paramDefault i (d.opening :: (d.value ++ u :: after))
      (Ident.ofTokens? (plainTokens d.value)) (u :: after) := by
    refine (Returns.current d.opening _).bind (.then_ hd.opening ?_)
    refine (returns_advance.2 ⟨rfl, ?_⟩ : Returns advance i _ () _).bind (hvalue.bind ?_)
    · simp [Reaches]
    · simp
  refine ⟨t.span.start, ?_⟩
  have hfront : d.tokens ++ u :: after =
      d.name :: t :: (ts ++ d.opening :: (d.value ++ u :: after)) := by
    simp [Declared.tokens, hts]
  have hmode : Returns passMode i (t :: (ts ++ d.opening :: (d.value ++ u :: after))) .unstated
      (t :: (ts ++ d.opening :: (d.value ++ u :: after))) := by
    simp [passMode, Input.current, hkind]
  rw [hfront, param_eq]
  refine (Returns.current d.name _).bind ((returns_advance_cons d.name t _).bind (hmode.bind ?_))
  refine (Returns.current t _).bind (.else_ (by simp [hcopy]) ?_)
  refine (Returns.current t _).bind (.then_ (by simp [hkind, TokenKind.isKeyword]) ?_)
  refine (Returns.require hkind _).bind ?_
  rw [← List.cons_append, ← hts]
  exact htype.bind (hdefault.bind (.pure _ _))

/-- A list of one parameter is read up to its closing parenthesis. -/
theorem fieldList_declared (hd : d.Proper) (hc : c.kind = .op .closeParen)
    (hafter : after = [] → i.fault? = none) :
    ∃ pos, Returns fieldList i (o :: d.tokens ++ c :: after)
      ⟨o.span.start, [.ofParameter d.name.fieldDoc ⟨d.name.lexeme, d.name.span⟩ .unstated
        (.ofTokens pos (plainTokens d.type)) (Ident.ofTokens? (plainTokens d.value))],
        c.span.start⟩ after := by
  obtain ⟨pos, hparam⟩ := param_declared (i := i) after hd (.inl hc)
  refine ⟨pos, (Returns.current o _).bind (.bind (a := ⟨o.span.start, [_], c.span.start⟩) ?_
    ((returns_advance.2 ⟨rfl, fun _ => hafter⟩ : Returns advance i (c :: after) () after).bind
      (.pure _ _)))⟩
  have hstep := hparam.bind (f := fun f => do
    let t ← current
    if t.kind = .op .closeParen then
      return (Sum.inr ⟨o.span.start, [f], t.span.start⟩ : List Field ⊕ FieldList)
    else
      require (.op .comma)
      return .inl [f]) ((Returns.current c _).bind (.then_ hc (.pure _ _)))
  exact returns_iterate_cons.2 ⟨by simp [Reaches, Declared.tokens], _, _, hstep, .pure _ _⟩

end Parser

theorem Ident.name_ofTokens (pos : Nat) (ts : List Token) :
    (Ident.ofTokens pos ts).name = tokensText ts := by
  unfold Ident.ofTokens
  cases hx : Ident.ofTokens? ts with
  | none => rw [Ident.eq_nil_of_ofTokens? hx]; rfl
  | some x =>
    unfold Ident.ofTokens? at hx
    split at hx
    · cases hx
      rfl
    · cases hx

theorem Ident.map_name_ofTokens? (ts : List Token) :
    (Ident.ofTokens? ts).map (·.name) = if ts = [] then none else some (tokensText ts) := by
  cases ts with
  | nil => rfl
  | cons t ts => simp [Ident.ofTokens?, List.getLast?_cons]

/-- The text of tokens depends on their words only. -/
theorem tokensText_congr {ts us : List DocToken} (h : wordsOf ts = wordsOf us) :
    tokensText (plainTokens ts) = tokensText (plainTokens us) := by
  rw [← wordsText_word, ← wordsText_word]
  exact congrArg wordsText h

/-- **Variables and parameters have the same texts.**  Where `v T := E` or `v T default E`
    stands before a semicolon, a variable is read, and where the same words stand between
    parentheses, whatever the layout, a list of one parameter.  Name, type and default
    value have the same texts in both; there is no default value if `E` is empty.

    The texts of the variable are put together token by token, and the default value of
    the parameter with each group in parentheses on its own: it makes no difference. -/
theorem declared_texts_agree {i : Input} {file : String} {text : List Char} {d e : Declared}
    {s o c : DocToken} {before after' : List DocToken} (after : List DocToken)
    (hd : d.Proper) (he : e.Proper) (hsame : d.Same e)
    (hs : s.kind = .op .semicolon) (hc : c.kind = .op .closeParen)
    (htokens : (Input.ofText file text).tokens = before ++ o :: e.tokens ++ c :: after')
    (hafter : after' = [] → (Input.ofText file text).fault? = none) :
    ∃ f g, Parser.variableField.Returns i (d.tokens ++ s :: after) f (s :: after) ∧
      Parser.fieldList.Returns (Input.ofText file text) (o :: e.tokens ++ c :: after')
        ⟨o.span.start, [g], c.span.start⟩ after' ∧
      f.kind = .variable_ ∧ g.kind = .parameter ∧ f.name.name = g.name.name ∧
      f.type?.map (·.name) = some (TextDraft.pushAll {} (plainTokens d.type)).text ∧
      g.type?.map (·.name) = f.type?.map (·.name) ∧
      f.default?.map (·.name) =
        (if d.value = [] then none else some (TextDraft.pushAll {} (plainTokens d.value)).text) ∧
      g.default?.map (·.name) =
        (if d.value = [] then none else some (TextDraft.pushGroups {} e.value).text) ∧
      g.default?.map (·.name) = f.default?.map (·.name) := by
  obtain ⟨pos, notNull, hvariable⟩ := Parser.variableField_declared (i := i) after hd hs
  obtain ⟨pos', hlist⟩ := Parser.fieldList_declared (i := Input.ofText file text) (o := o) he hc
    hafter
  have hclose : ∀ t ∈ e.value, t.kind = .op .closeParen → t.lexeme = ")" := fun t ht hkind =>
    ((Input.scanned_ofText file text).spelling (d := t) (by simp [htokens, Declared.tokens, ht])
      hkind (by simp)).1
  have hplain (ts : List DocToken) : plainTokens ts = [] ↔ ts = [] := by simp [plainTokens]
  have hnone : e.value = [] ↔ d.value = [] := by
    have hlength := congrArg List.length hsame.value
    simp only [wordsOf, plainTokens, List.length_map] at hlength
    rw [← List.length_eq_zero_iff, ← List.length_eq_zero_iff, hlength]
  refine ⟨_, _, hvariable, hlist, rfl, rfl, hsame.name, ?_, ?_, ?_, ?_, ?_⟩ <;>
    simp only [Field.ofVariable, Field.ofParameter, Option.map_some, Ident.name_ofTokens,
      Ident.map_name_ofTokens?, TextDraft.text_pushAll_empty, hplain, hnone,
      TextDraft.pushGroups_eq {} he.value.1 hclose, tokensText_congr hsame.type,
      tokensText_congr hsame.value]

/-- A variable with a comment between its tokens. -/
def groupsVariable : Input :=
  .ofText "" "v t ( 1, 2 ) not null -- c\n default f(a,(b)) mod 'x';".toList

/-- A parameter with the same words. -/
def groupsList : Input := .ofText "" "( v t(1,2)not\nnull:=f( a, ( b ))mod'x' )".toList

/-- A group is followed by a word in the default value. -/
theorem declared_texts_agree_groups :
    ∃ f g rest opening closing,
      Parser.variableField.Returns groupsVariable groupsVariable.tokens f rest ∧
      Parser.fieldList.Returns groupsList groupsList.tokens ⟨opening, [g], closing⟩ [] ∧
      g.type?.map (·.name) = some "t(1,2) not null" ∧
      g.type?.map (·.name) = f.type?.map (·.name) ∧
      g.default?.map (·.name) = some "f(a,(b)) mod 'x'" ∧
      g.default?.map (·.name) = f.default?.map (·.name) := by
  obtain ⟨d, hcut, s, -, e, -, o, -, c, -, htokens, htokens', hd, he, hsame, hs, hc⟩ :
      ∃ d ∈ Declared.ofTokens? groupsVariable.tokens.dropLast,
      ∃ s ∈ groupsVariable.tokens.getLast?,
      ∃ e ∈ Declared.ofTokens? groupsList.tokens.tail.dropLast,
      ∃ o ∈ groupsList.tokens.head?, ∃ c ∈ groupsList.tokens.getLast?,
      groupsVariable.tokens = d.tokens ++ [s] ∧ groupsList.tokens = [] ++ o :: e.tokens ++ [c] ∧
      d.Proper ∧ e.Proper ∧ d.Same e ∧ s.kind = .op .semicolon ∧ c.kind = .op .closeParen := by
    decide +kernel
  have htexts : ∀ d ∈ Declared.ofTokens? groupsVariable.tokens.dropLast, d.value ≠ [] ∧
      (TextDraft.pushAll {} (plainTokens d.type)).text = "t(1,2) not null" ∧
      (TextDraft.pushAll {} (plainTokens d.value)).text = "f(a,(b)) mod 'x'" := by
    decide +kernel
  obtain ⟨hne, htype, hvalue⟩ := htexts d hcut
  obtain ⟨f, g, hf, hg, -, -, -, hftype, hgtype, hfdefault, -, hgdefault⟩ :=
    declared_texts_agree (i := groupsVariable) [] hd he hsame hs hc htokens'
      (fun _ => by decide +kernel)
  rw [htype] at hftype
  rw [if_neg hne, hvalue] at hfdefault
  exact ⟨f, g, _, _, _, htokens ▸ hf, htokens' ▸ hg, hgtype.trans hftype, hgtype,
    hgdefault.trans hfdefault, hgdefault⟩

end PackageDoc
