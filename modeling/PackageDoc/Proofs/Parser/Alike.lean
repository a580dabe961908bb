/-
  Every production is alike.

  The productions of the grammar, one after the other, are alike on two inputs
  that have a likeness: `packages` gives packages that agree under the recasts.
-/
import PackageDoc.Proofs.Parser.Likeness
import PackageDoc.Proofs.Parser.Returns
import PackageDoc.Proofs.Text.Encoding

namespace PackageDoc.Likeness

variable {i j : Input} {L : Likeness i j}

/-! ## Tokens and texts -/

/-- Texts that agree under the recasts, and start and end with the same characters. -/
structure SameText (L : Likeness i j) (s t : String) : Prop where
  text : L.left.text s = L.right.text t
  head : s.toList.head? = t.toList.head?
  last : s.toList.getLast? = t.toList.getLast?

theorem SameText.refl (s : String) : L.SameText s s := ⟨congrFun L.text_eq s, rfl, rfl⟩

theorem SameText.append {s s' t t' : String} (h : L.SameText s t) (h' : L.SameText s' t') :
    L.SameText (s ++ s') (t ++ t') where
  text := by
    have htext := h.text
    have htext' := h'.text
    rw [← L.text_eq] at htext htext' ⊢
    rw [L.text_append, L.text_append, htext, htext']
  head := by simp only [String.toList_append, List.head?_append, h.head, h'.head]
  last := by simp only [String.toList_append, List.getLast?_append, h.last, h'.last]

theorem sameText_typeText {t u : DocToken} (h : L.Token i j t u) :
    L.SameText t.token.typeText u.token.typeText := by
  have hkind : t.token.kind = u.token.kind := h.kind
  unfold Token.typeText
  rw [← hkind]
  split
  · have htext : L.left.text t.token.lexeme = L.right.text u.token.lexeme := h.text
    rw [← L.text_eq] at htext
    refine ⟨?_, by simp, ?_⟩
    · rw [← L.text_eq]
      simp only [L.text_append, htext]
    · simp only [String.toList_append, List.getLast?_append]
      rfl
  · rename_i hstring
    rw [show t.token.lexeme = u.token.lexeme from h.word hstring]
    exact .refl _

theorem sameText_joinTokens {ts us : List DocToken} (h : List.Forall₂ (L.Token i j) ts us)
    (apart : Bool) :
    L.SameText (joinTokens apart (plainTokens ts)) (joinTokens apart (plainTokens us)) := by
  induction h generalizing apart with
  | nil => exact .refl _
  | @cons t u ts us ht _ ih =>
    have hkind : t.token.kind = u.token.kind := ht.kind
    have hparts : t.token.parts = u.token.parts := by simp only [Token.parts, hkind]
    simp only [plainTokens, List.map_cons, joinTokens, hkind]
    rw [← hparts]
    exact ((SameText.refl _).append (sameText_typeText ht)).append (ih _)

theorem sameText_tokensText {ts us : List DocToken} (h : List.Forall₂ (L.Token i j) ts us) :
    L.SameText (tokensText (plainTokens ts)) (tokensText (plainTokens us)) :=
  sameText_joinTokens h false

/-- A group is closed if it starts and ends with a parenthesis. -/
theorem groupBody_eq (cs : List Char) :
    (∃ body, cs = '(' :: body ++ [')'] ∧ groupBody cs = body) ∨
      ¬ (cs.head? = some '(' ∧ cs.getLast? = some ')') ∧ groupBody cs = cs := by
  cases cs with
  | nil => exact .inr ⟨by simp, rfl⟩
  | cons c body =>
    by_cases hc : c = '('
    · subst hc
      rcases List.eq_nil_or_concat body with rfl | ⟨body, d, rfl⟩
      · exact .inr ⟨by simp, rfl⟩
      · by_cases hd : d = ')'
        · exact .inl ⟨body, by simp [hd], by simp [groupBody, hd]⟩
        · refine .inr ⟨fun h => hd ?_, by simp [groupBody, hd]⟩
          rw [List.concat_eq_append, ← List.cons_append, List.getLast?_concat] at h
          exact Option.some.inj h.2
    · exact .inr ⟨by simp [hc], by simp [groupBody, hc]⟩

/-- What stands between the parentheses of two groups agrees. -/
theorem SameText.groupBody {s t : String} (h : L.SameText s t) :
    L.left.text (String.ofList (groupBody s.toList)) =
      L.right.text (String.ofList (groupBody t.toList)) := by
  have htext := h.text
  rw [← L.text_eq] at htext ⊢
  rcases groupBody_eq s.toList with ⟨body, hs, hbody⟩ | ⟨hs, hbody⟩
  · rcases groupBody_eq t.toList with ⟨body', ht, hbody'⟩ | ⟨ht, hbody'⟩
    · rw [hbody, hbody']
      have hsplit : ∀ {x : String} {cs : List Char}, x.toList = '(' :: cs ++ [')'] →
          x = "(" ++ String.ofList cs ++ ")" := by
        intro x cs hx
        rw [← String.toList_inj, hx]
        simp
      rw [hsplit hs, hsplit ht] at htext
      simp only [L.text_append, ← String.toList_inj, String.toList_append] at htext ⊢
      exact List.append_cancel_left (List.append_cancel_right htext)
    · exact absurd ⟨by rw [← h.head, hs]; rfl, by rw [← h.last, hs, List.getLast?_concat]⟩ ht
  · rcases groupBody_eq t.toList with ⟨body', ht, hbody'⟩ | ⟨ht, hbody'⟩
    · exact absurd ⟨by rw [h.head, ht]; rfl, by rw [h.last, ht, List.getLast?_concat]⟩ hs
    · rw [hbody, hbody', String.ofList_toList, String.ofList_toList, htext]

theorem ofTokens? {ts us : List DocToken} (h : List.Forall₂ (L.Token i j) ts us) :
    L.Same (fun r => Option.map (Ident.recast r)) (Ident.ofTokens? (plainTokens ts))
      (Ident.ofTokens? (plainTokens us)) := by
  have htext := (sameText_tokensText h).text
  cases h with
  | nil => rfl
  | @cons t u ts us ht hts =>
    have hlast : L.Token i j ((t :: ts).getLast (by simp)) ((u :: us).getLast (by simp)) := by
      clear htext
      induction hts generalizing t u with
      | nil => exact ht
      | cons ht' _ ih => exact ih ht'
    have hstart := ht.start
    have hstop := hlast.stop
    simp only [DocToken.span] at hstart hstop
    simp only [plainTokens] at htext
    simp only [Same, Ident.ofTokens?, plainTokens, List.head?_map, List.getLast?_map, List.head?_cons,
      List.getLast?_eq_some_getLast (List.cons_ne_nil _ _), Option.map_some, Ident.recast,
      Span.recast, L.left_max, L.right_max, hstart, hstop, htext]

theorem ofTokens {ts us : List DocToken} {m n : Nat} (hplace : L.left.place m = L.right.place n)
    (h : List.Forall₂ (L.Token i j) ts us) :
    L.Same Ident.recast (Ident.ofTokens m (plainTokens ts)) (Ident.ofTokens n (plainTokens us)) := by
  have hsome := ofTokens? h
  simp only [Same] at hsome ⊢
  unfold Ident.ofTokens
  cases ht : Ident.ofTokens? (plainTokens ts) with
  | none =>
    cases hu : Ident.ofTokens? (plainTokens us) with
    | none => simp [Ident.recast, Span.recast, hplace, L.text_eq]
    | some y => simp [ht, hu] at hsome
  | some x =>
    cases hu : Ident.ofTokens? (plainTokens us) with
    | none => simp [ht, hu] at hsome
    | some y => simpa [ht, hu] using hsome

theorem saysNotNull_eq {ts us : List DocToken} (h : List.Forall₂ (L.Token i j) ts us) :
    saysNotNull ts = saysNotNull us := by
  induction h with
  | nil => rfl
  | cons ht hts ih =>
    cases hts with
    | nil => rfl
    | cons ht' hts' => simp only [saysNotNull, ht.kind, ht'.kind, ih]

theorem openDepth_eq {ts us : List DocToken} (h : List.Forall₂ (L.Token i j) ts us) :
    openDepth ts = openDepth us := by
  unfold openDepth
  generalize 0 = depth
  induction h generalizing depth with
  | nil => rfl
  | cons ht _ ih => simp only [List.foldl_cons, ht.kind, ih]

/-! ## Splits -/

theorem splits_splitDefault (depth : Nat) : L.Splits (splitDefault depth) (splitDefault depth) := by
  intro ts us h
  induction h generalizing depth with
  | nil => exact ⟨.nil, .nil⟩
  | cons ht hts ih =>
    simp only [splitDefault, ht.kind]
    split
    · exact ⟨.nil, hts⟩
    · exact ⟨.cons ht (ih _).1, (ih _).2⟩

theorem splits_splitNested (stop : TokenKind → Bool) (depth : Nat) :
    L.Splits (splitNested stop depth) (splitNested stop depth) := by
  intro ts us h
  induction h generalizing depth with
  | nil => exact ⟨.nil, .nil⟩
  | cons ht hts ih =>
    simp only [splitNested, ht.kind]
    split
    · exact ⟨.nil, .cons ht hts⟩
    · exact ⟨.cons ht (ih _).1, (ih _).2⟩

theorem takeNested (stop : TokenKind → Bool) :
    L.Alike (List.Forall₂ (L.Token i j)) (Parser.takeNested stop) (Parser.takeNested stop) :=
  passTo _ _ (splits_splitNested stop 0)

/-! ## Single names -/

theorem tests_isName (word : String) : L.Tests (·.isName word) := by
  intro t u htu
  simp only [DocToken.isName]
  by_cases hkind : t.kind = .ident
  · rw [← htu.kind, htu.word (by rw [hkind]; simp)]
  · rw [← htu.kind, decide_eq_false hkind, Bool.false_and, Bool.false_and]

theorem tokenName {t u : DocToken} (htu : L.Token i j t u) :
    L.Same Ident.recast ⟨t.lexeme, t.span⟩ ⟨u.lexeme, u.span⟩ := by
  simp only [Same, Ident.recast, Span.recast, htu.text, htu.start, htu.stop]

/-- Names that agree, and are the same word. -/
def SameName (L : Likeness i j) (x y : Ident) : Prop := L.Same Ident.recast x y ∧ x.name = y.name

/-- The name of a package, which the one behind `end` is compared with. -/
theorem sameName : L.Alike L.SameName Parser.name Parser.name := by
  intro ts us hts
  simp only [Parser.name, Parser.outcome_bind]
  refine (require _ _ _ hts).bind fun _ _ ts' us' hrequire _ _ hts' => ?_
  obtain ⟨hkind, rfl⟩ := Parser.returns_require.1 hrequire
  have htu := hts'.current L.eof
  exact .ok ⟨tokenName htu, htu.word (by rw [hkind]; simp)⟩ hts'

theorem name : L.Alike (L.Same Ident.recast) Parser.name Parser.name :=
  sameName.mono fun _ _ h => h.1

theorem nextName : L.Alike (L.Same Ident.recast) Parser.nextName Parser.nextName :=
  bind advance fun _ _ _ => name

/-! ## Variables and parameters -/

/-- A variable or a constant, put together from its tokens. -/
theorem declaredField (constant : Bool) {t u t' u' : DocToken} {x y : Ident}
    {ts us : List DocToken} (htu : L.Token i j t u) (hxy : L.Same Ident.recast x y)
    (hstart : L.Token i j t' u') (hts : List.Forall₂ (L.Token i j) ts us) :
    L.Same Field.recast
      (if constant then
        .ofConstant t.leadDoc x (.ofTokens t'.span.start (plainTokens (splitDefault 0 ts).1))
          (Ident.ofTokens? (plainTokens (splitDefault 0 ts).2)) (saysNotNull (splitDefault 0 ts).1)
      else .ofVariable t.leadDoc x (.ofTokens t'.span.start (plainTokens (splitDefault 0 ts).1))
        (Ident.ofTokens? (plainTokens (splitDefault 0 ts).2)) (saysNotNull (splitDefault 0 ts).1))
      (if constant then
        .ofConstant u.leadDoc y (.ofTokens u'.span.start (plainTokens (splitDefault 0 us).1))
          (Ident.ofTokens? (plainTokens (splitDefault 0 us).2)) (saysNotNull (splitDefault 0 us).1)
      else .ofVariable u.leadDoc y (.ofTokens u'.span.start (plainTokens (splitDefault 0 us).1))
        (Ident.ofTokens? (plainTokens (splitDefault 0 us).2))
        (saysNotNull (splitDefault 0 us).1)) := by
  obtain ⟨htype, hvalue⟩ := splits_splitDefault 0 ts us hts
  have hident := ofTokens hstart.start htype
  have hdefault := ofTokens? hvalue
  simp only [Same] at hxy hident hdefault ⊢
  cases constant <;>
    simp [Field.recast, Field.ofConstant, Field.ofVariable, htu.lead, hxy, hident, hdefault,
      saysNotNull_eq htype]

theorem variableField :
    L.Alike (L.Same Field.recast) Parser.variableField Parser.variableField := by
  refine bind current fun t u htu => bind name fun x y hxy => bind advance fun _ _ _ => ?_
  refine bind (isAt _) fun exception _ heq => ?_
  subst heq
  cases exception with
  | true =>
    simp only [Same] at hxy
    exact pure (by simp [Same, Field.recast, Field.ofException, htu.lead, hxy])
  | false =>
    refine bind (isAt _) fun constant _ heq => ?_
    subst heq
    cases constant with
    | true =>
      exact bind advance fun _ _ _ => bind current fun _ _ hstart =>
        bind (takeTo (tests_kind _)) fun _ _ hts => pure (declaredField true htu hxy hstart hts)
    | false =>
      exact bind current fun _ _ hstart =>
        bind (takeTo (tests_kind _)) fun _ _ hts => pure (declaredField false htu hxy hstart hts)

theorem passMode : L.Alike Eq Parser.passMode Parser.passMode := by
  refine bind (isAt _) fun out _ heq => ?_
  subst heq
  split
  · exact bind advance fun _ _ _ => pure rfl
  · refine bind (isAt _) fun in_ _ heq => ?_
    subst heq
    split
    · refine bind advance fun _ _ _ => bind (isAt _) fun out _ heq => ?_
      subst heq
      split
      · exact bind advance fun _ _ _ => pure rfl
      · exact pure rfl
    · exact pure rfl

theorem paramDefault :
    L.Alike (L.Same fun r => Option.map (Ident.recast r)) Parser.paramDefault
      Parser.paramDefault := by
  refine bind current fun t u htu => ?_
  rw [htu.kind]
  split
  · refine bind advance fun _ _ _ => bind (takeNested _) fun ts us hts => ?_
    refine bind atEnd fun ended _ heq => ?_
    subst heq
    rw [openDepth_eq hts]
    split
    · exact bind advance fun _ _ _ => pure (ofTokens? hts)
    · exact pure (ofTokens? hts)
  · exact pure rfl

/-- A parameter, put together from its parts. -/
theorem paramField (mode : PassMode) {t u t' u' : DocToken} {ts us : List DocToken}
    {d e : Option Ident} (htu : L.Token i j t u) (hfirst : L.Token i j t' u')
    (hts : List.Forall₂ (L.Token i j) ts us)
    (hde : L.Same (fun r => Option.map (Ident.recast r)) d e) :
    L.Same Field.recast
      (.ofParameter t.fieldDoc ⟨t.lexeme, t.span⟩ mode
        (.ofTokens t'.span.start (plainTokens ts)) d)
      (.ofParameter u.fieldDoc ⟨u.lexeme, u.span⟩ mode
        (.ofTokens u'.span.start (plainTokens us)) e) := by
  have hname := tokenName htu
  have htype := ofTokens hfirst.start hts
  simp only [Same] at hname htype hde ⊢
  simp only [Field.recast, Field.ofParameter, Option.map_some, hname, htype, hde, htu.field]

/-- A parameter, from the first token of its type on. -/
theorem paramRest {t u : DocToken} (htu : L.Token i j t u) (mode : PassMode) :
    L.Alike (L.Same Field.recast)
      (do
        let first ← Parser.current
        if !first.kind.isKeyword then Parser.require .ident
        let tokens ← Parser.takeNested fun kind => kind = .op .comma || startsDefault kind
        let type := Ident.ofTokens first.span.start (plainTokens tokens)
        let default? ← Parser.paramDefault
        return .ofParameter t.fieldDoc ⟨t.lexeme, t.span⟩ mode type default?)
      (do
        let first ← Parser.current
        if !first.kind.isKeyword then Parser.require .ident
        let tokens ← Parser.takeNested fun kind => kind = .op .comma || startsDefault kind
        let type := Ident.ofTokens first.span.start (plainTokens tokens)
        let default? ← Parser.paramDefault
        return .ofParameter u.fieldDoc ⟨u.lexeme, u.span⟩ mode type default?) := by
  refine bind current fun t' u' hfirst => ?_
  rw [hfirst.kind]
  split
  · exact bind (require _) fun _ _ _ => bind (takeNested _) fun _ _ hts =>
      bind paramDefault fun _ _ hde => pure (paramField mode htu hfirst hts hde)
  · exact bind (takeNested _) fun _ _ hts =>
      bind paramDefault fun _ _ hde => pure (paramField mode htu hfirst hts hde)

theorem param : L.Alike (L.Same Field.recast) Parser.param Parser.param := by
  refine bind current fun t u htu => bind advance fun _ _ _ => bind passMode fun mode _ heq => ?_
  subst heq
  refine bind current fun t' u' hword => ?_
  have hnocopy : (t'.kind = .ident && t'.lexeme == "nocopy") =
      (u'.kind = .ident && u'.lexeme == "nocopy") := tests_isName "nocopy" t' u' hword
  rw [hnocopy]
  split
  · exact bind advance fun _ _ _ => paramRest htu mode
  · exact paramRest htu mode

/-! ## Lists of fields -/

theorem fieldStep {m n : Nat} (hmn : L.left.place m = L.right.place n) {fs gs : List Field}
    (hfg : L.Same (fun r => List.map (Field.recast r)) fs gs) :
    L.Alike
      (Sum.LiftRel (L.Same fun r => List.map (Field.recast r)) (L.Same FieldList.recast))
      (Parser.fieldStep m fs) (Parser.fieldStep n gs) := by
  refine bind param fun f g hf => bind current fun t u htu => ?_
  rw [htu.kind]
  simp only [Same] at hf hfg
  split
  · refine pure (.inr ?_)
    simp only [Same, FieldList.recast, hmn, htu.start, List.map_reverse, List.map_cons, hf, hfg]
  · refine bind (require _) fun _ _ _ => pure (.inl ?_)
    simp only [Same, List.map_cons, hf, hfg]

theorem fieldList : L.Alike (L.Same FieldList.recast) Parser.fieldList Parser.fieldList := by
  refine bind current fun t u htu => ?_
  refine bind (iterate (fun _ _ h => fieldStep htu.start h) (fun fs gs h => ?_) rfl)
    fun _ _ h => bind advance fun _ _ _ => pure h
  simp only [Same] at h
  simp only [Same, FieldList.recast, htu.start, List.map_reverse, h]

theorem fieldList? :
    L.Alike (L.Same fun r => Option.map (FieldList.recast r)) Parser.fieldList?
      Parser.fieldList? := by
  refine bind (isAt _) fun here _ heq => ?_
  subst heq
  split
  · exact bind fieldList fun l l' h => pure (congrArg some h)
  · exact pure rfl

theorem group : L.Alike (List.Forall₂ (L.Token i j)) Parser.group Parser.group := by
  refine bind current fun t u htu => bind advance fun _ _ _ => ?_
  refine bind (takeNested _) fun ts us hts => bind atEnd fun ended _ heq => ?_
  subst heq
  split
  · exact pure (.cons htu hts)
  · exact bind current fun t' u' hlast =>
      pure (.cons htu (List.rel_append hts (.cons hlast .nil)))

/-! ## Routines -/

theorem typeTail : L.Alike (L.Same Ident.recast) Parser.typeTail Parser.typeTail :=
  bind advance fun _ _ _ => bind current fun _ _ hstart =>
    bind (takeTo (tests_kind _)) fun _ _ hts => pure (ofTokens hstart.start hts)

theorem tests_endsResult : L.Tests endsResult := by
  intro t u htu
  have hkind := htu.kind
  unfold endsResult
  rw [← hkind]
  split
  · rfl
  · rfl
  · rfl
  · rfl
  · rename_i hident
    rw [htu.word (by rw [hident]; simp)]
  · rfl

theorem functionResult :
    L.Alike (L.Same Ident.recast) Parser.functionResult Parser.functionResult :=
  bind (require _) fun _ _ _ => bind advance fun _ _ _ => bind current fun _ _ hstart =>
    bind (takeTo tests_endsResult) fun _ _ hts => pure (ofTokens hstart.start hts)

theorem any_eq {ts us : List DocToken} {stop : DocToken → Bool} (hstop : L.Tests stop)
    (h : List.Forall₂ (L.Token i j) ts us) : ts.any stop = us.any stop := by
  induction h with
  | nil => rfl
  | cons ht _ ih => rw [List.any_cons, List.any_cons, hstop _ _ ht, ih]

theorem routine : L.Alike (L.Same Routine.recast) Parser.routine Parser.routine := by
  refine bind current fun t u htu => bind nextName fun x y hxy => bind advance fun _ _ _ => ?_
  refine bind fieldList? fun l l' hl => ?_
  rw [htu.kind]
  simp only [Same] at hxy hl
  split
  · refine bind (skipTo _) fun _ _ _ => pure ?_
    simp only [Same, Routine.recast, htu.lead, hxy, hl, Option.map_none]
  · refine bind functionResult fun a b hab => bind (takeTo (tests_kind _)) fun ts us hts => pure ?_
    simp only [Same] at hab
    simp only [Same, Routine.recast, htu.lead, hxy, hl, hab, Option.map_some,
      any_eq (tests_kind _) hts]

/-! ## Cursors -/

theorem cursorResult? :
    L.Alike (L.Same fun r => Option.map (Ident.recast r)) Parser.cursorResult?
      Parser.cursorResult? := by
  refine bind (isAt _) fun here _ heq => ?_
  subst heq
  split
  · refine bind advance fun _ _ _ => bind current fun t u hstart => ?_
    refine bind (takeTo fun t u htu => by rw [htu.kind]) fun ts us hts => pure ?_
    exact congrArg some (ofTokens hstart.start hts)
  · exact pure rfl

/-- The text of a query, from the current token to the next semicolon. -/
theorem queryText :
    L.Alike (L.Same Sql.recast)
      (do
        let start := (← Parser.current).span.start
        Parser.skipTo (.op .semicolon)
        let stop := (← Parser.current).span.start
        return ⟨start, String.ofList (Text.slice (← Parser.input).text start stop)⟩)
      (do
        let start := (← Parser.current).span.start
        Parser.skipTo (.op .semicolon)
        let stop := (← Parser.current).span.start
        return ⟨start, String.ofList (Text.slice (← Parser.input).text start stop)⟩) := by
  intro ts us hts
  simp only [Parser.outcome_bind]
  refine (current ts us hts).bind fun t u ts₁ us₁ ht hu htu hts₁ => ?_
  obtain ⟨rfl, rfl⟩ := Parser.returns_current.1 ht
  obtain ⟨rfl, rfl⟩ := Parser.returns_current.1 hu
  refine (skipTo _ _ _ hts).bind fun _ _ ts' us' hskip hskip' _ hrest => ?_
  refine .ok ?_ hrest
  have hquery := L.query hts hrest (Parser.suffix _ hskip) (Parser.suffix _ hskip')
  simp only [Same, Sql.recast, htu.start, hquery]

theorem cursorQuery : L.Alike (L.Same Sql.recast) Parser.cursorQuery Parser.cursorQuery := by
  refine bind current fun t u htu => ?_
  rw [htu.kind]
  split
  · refine pure ?_
    have hnil : L.Tokens i j [] [] := ⟨List.nil_suffix, List.nil_suffix, .nil⟩
    have hempty := L.query hnil hnil List.nil_suffix List.nil_suffix
    simp only [Text.slice_self] at hempty
    simp only [Same, Sql.recast, htu.start]
    rw [show "" = String.ofList [] from rfl, hempty]
  · exact bind (skipTo _) fun _ _ _ => bind advance fun _ _ _ => queryText

theorem cursor : L.Alike (L.Same Cursor.recast) Parser.cursor Parser.cursor := by
  refine bind current fun t u htu => bind nextName fun x y hxy => bind advance fun _ _ _ => ?_
  refine bind fieldList? fun l l' hl => bind cursorResult? fun a b hab => ?_
  refine bind cursorQuery fun q q' hq => pure ?_
  simp only [Same] at hxy hl hab hq
  simp only [Same, Cursor.recast, htu.lead, hxy, hl, hab, hq]

/-! ## Types -/

theorem arrayBound? :
    L.Alike (L.Same fun r => Option.map (Ident.recast r)) Parser.arrayBound?
      Parser.arrayBound? := by
  refine bind current fun t u htu => ?_
  rw [htu.kind]
  split
  · refine bind group fun ts us hts => bind current fun t' u' hlast => pure ?_
    simp only [Same, Option.map_some, Ident.recast, Span.recast, L.left_max, L.right_max,
      (sameText_tokensText hts).groupBody, L.succ htu.start, hlast.inner]
  · exact pure rfl

theorem tableType : L.Alike (L.Same TypeBody.recast) Parser.tableType Parser.tableType :=
  bind advance fun _ _ _ => bind (skipTo _) fun _ _ _ =>
    bind typeTail fun _ _ h => pure (congrArg TypeBody.table h)

theorem arrayType : L.Alike (L.Same TypeBody.recast) Parser.arrayType Parser.arrayType :=
  bind advance fun _ _ _ => bind arrayBound? fun _ _ hbound => bind (skipTo _) fun _ _ _ =>
    bind typeTail fun _ _ h => pure (congrArg₂ TypeBody.varray hbound h)

theorem recordType : L.Alike (L.Same TypeBody.recast) Parser.recordType Parser.recordType :=
  bind advance fun _ _ _ => bind (require _) fun _ _ _ =>
    bind fieldList fun _ _ h => pure (congrArg TypeBody.record h)

theorem refCursorType :
    L.Alike (L.Same TypeBody.recast) Parser.refCursorType Parser.refCursorType := by
  refine bind advance fun _ _ _ => bind (require _) fun _ _ _ => bind advance fun _ _ _ => ?_
  refine bind (isAt _) fun here _ heq => ?_
  subst heq
  split
  · exact pure rfl
  · exact bind (require _) fun _ _ _ => bind typeTail fun _ _ h =>
      pure (congrArg (fun x => TypeBody.refCursor (some x)) h)

theorem typeBody? (x y : Ident) :
    L.Alike (L.Same fun r => Option.map (TypeBody.recast r)) (Parser.typeBody? x)
      (Parser.typeBody? y) := by
  refine bind current fun t u htu => ?_
  rw [htu.kind]
  split
  · exact bind tableType fun _ _ h => pure (congrArg some h)
  · exact bind arrayType fun _ _ h => pure (congrArg some h)
  · exact bind recordType fun _ _ h => pure (congrArg some h)
  · exact bind refCursorType fun _ _ h => pure (congrArg some h)
  · exact bind (log _ _) fun _ _ _ => bind (skipTo _) fun _ _ _ => pure rfl

theorem typeDecl? :
    L.Alike (L.Same fun r => Option.map (TypeDecl.recast r)) Parser.typeDecl? Parser.typeDecl? := by
  refine bind current fun t u htu => bind nextName fun x y hxy => bind advance fun _ _ _ => ?_
  refine bind (require _) fun _ _ _ => bind advance fun _ _ _ => ?_
  refine bind (typeBody? x y) fun b b' hb => pure ?_
  simp only [Same] at hxy hb ⊢
  cases b <;> cases b' <;> simp_all [TypeDecl.recast, htu.lead]

theorem subtype : L.Alike (L.Same Subtype.recast) Parser.subtype Parser.subtype := by
  refine bind current fun t u htu => bind nextName fun x y hxy => bind advance fun _ _ _ => ?_
  refine bind (require _) fun _ _ _ => bind typeTail fun a b hab => pure ?_
  simp only [Same] at hxy hab
  simp only [Same, Subtype.recast, htu.lead, hxy, hab]

/-! ## Bodies and directives -/

theorem tests_closesStatement : L.Tests closesStatement := by
  intro t u htu
  simp only [closesStatement, htu.kind, tests_isName "loop" t u htu]

theorem splits_splitBody (depth : Nat) : L.Splits (splitBody depth) (splitBody depth) := by
  suffices h : ∀ n ts us, ts.length ≤ n → List.Forall₂ (L.Token i j) ts us → ∀ depth,
      List.Forall₂ (L.Token i j) (splitBody depth ts).1 (splitBody depth us).1 ∧
        List.Forall₂ (L.Token i j) (splitBody depth ts).2 (splitBody depth us).2 from
    fun ts us hts => h ts.length ts us (Nat.le_refl _) hts depth
  intro n
  induction n with
  | zero =>
    intro ts us hn hts depth
    cases hts with
    | nil => exact ⟨.nil, .nil⟩
    | cons => simp at hn
  | succ n ih =>
    intro ts us hn hts depth
    cases hts with
    | nil => exact ⟨.nil, .nil⟩
    | @cons t u ts us ht hts =>
      simp only [List.length_cons] at hn
      have hrest := ih ts us (by omega) hts
      have hcase : t.isName "case" = u.isName "case" := tests_isName "case" t u ht
      cases hts with
      | nil =>
        simp only [splitBody, ht.kind, hcase]
        split
        · exact ⟨.cons ht .nil, .nil⟩
        · split <;> exact ⟨.cons ht .nil, .nil⟩
      | @cons t' u' ts us ht' hts =>
        have hcase' : t'.isName "case" = u'.isName "case" := tests_isName "case" t' u' ht'
        have hbehind := ih ts us (by simp only [List.length_cons] at hn; omega) hts
        rw [splitBody.eq_def depth (t :: t' :: ts), splitBody.eq_def depth (u :: u' :: us)]
        simp only [ht.kind, hcase, hcase', tests_closesStatement t' u' ht']
        split
        · exact ⟨.cons ht (hrest _).1, (hrest _).2⟩
        · split
          · split
            · exact ⟨.cons ht (.cons ht' (hbehind _).1), (hbehind _).2⟩
            · split
              · exact ⟨.cons ht .nil, .cons ht' hts⟩
              · split
                · exact ⟨.cons ht (.cons ht' (hbehind _).1), (hbehind _).2⟩
                · exact ⟨.cons ht (hrest _).1, (hrest _).2⟩
          · exact ⟨.cons ht (hrest _).1, (hrest _).2⟩

theorem splits_splitDirective {closes : DocToken → Bool} (hcloses : L.Tests closes) :
    L.Splits (splitDirective closes) (splitDirective closes) := by
  intro ts us h
  induction h with
  | nil => exact ⟨.nil, .nil⟩
  | @cons t u ts us ht hts ih =>
    have hhead : ts.head?.map closes = us.head?.map closes := by
      cases hts with
      | nil => rfl
      | cons ht' _ => exact congrArg some (hcloses _ _ ht')
    simp only [splitDirective, ht.kind, hhead]
    split
    · exact ⟨.cons ht .nil, hts⟩
    · exact ⟨.cons ht ih.1, ih.2⟩

theorem skipDirective {closes : DocToken → Bool} (hcloses : L.Tests closes) :
    L.Alike Eq (Parser.skipDirective closes) (Parser.skipDirective closes) :=
  bind (passTo _ _ (splits_splitDirective hcloses)) fun _ _ _ => pure rfl

/-- A directive, from its word on. -/
theorem directiveWord :
    L.Alike Eq
      (do
        let t ← Parser.current
        if t.kind = .keyword .if_ || t.kind = .keyword .elsif then
          Parser.skipDirective (·.isName "then")
        else if t.isName "error" then Parser.skipDirective (·.kind = .keyword .end_)
        else return ())
      (do
        let t ← Parser.current
        if t.kind = .keyword .if_ || t.kind = .keyword .elsif then
          Parser.skipDirective (·.isName "then")
        else if t.isName "error" then Parser.skipDirective (·.kind = .keyword .end_)
        else return ()) := by
  refine bind current fun t u htu => ?_
  rw [htu.kind, show t.isName "error" = u.isName "error" from tests_isName "error" t u htu]
  split
  · exact skipDirective (tests_isName "then")
  · split
    · exact skipDirective (tests_kind _)
    · exact pure rfl

theorem directive : L.Alike Eq Parser.directive Parser.directive := by
  refine bind advance fun _ _ _ => bind (isAt _) fun dollar _ heq => ?_
  subst heq
  split
  · exact bind advance fun _ _ _ => directiveWord
  · exact directiveWord

theorem packageBody : L.Alike Eq Parser.packageBody Parser.packageBody :=
  bind current fun _ _ _ => bind advance fun _ _ _ =>
    bind (passTo _ _ (splits_splitBody 1)) fun _ _ _ => bind current fun _ _ _ => log _ _

/-! ## Declarations -/

theorem item? : L.Alike (L.Same fun r => Option.map (Item.recast r)) Parser.item? Parser.item? := by
  refine bind current fun t u htu => ?_
  rw [htu.kind]
  split
  · exact bind directive fun _ _ _ => pure rfl
  · exact bind variableField fun _ _ h => pure (congrArg (fun x => some (Item.field x)) h)
  · exact bind cursor fun _ _ h => pure (congrArg (fun x => some (Item.cursor x)) h)
  · exact bind routine fun _ _ h => pure (congrArg (fun x => some (Item.routine x)) h)
  · exact bind routine fun _ _ h => pure (congrArg (fun x => some (Item.routine x)) h)
  · exact bind (skipTo _) fun _ _ _ => pure rfl
  · refine bind typeDecl? fun a b h => pure ?_
    simp only [Same] at h ⊢
    cases a <;> cases b <;> simp_all [Item.recast]
  · exact bind subtype fun _ _ h => pure (congrArg (fun x => some (Item.subtype x)) h)
  · exact pure rfl
  · exact pure rfl
  · exact bind (log _ _) fun _ _ _ => bind (skipTo _) fun _ _ _ => pure rfl

theorem packageEnd {x y : Ident} (hxy : x.name = y.name) :
    L.Alike (L.Same fun r => r.place) (Parser.packageEnd x) (Parser.packageEnd y) := by
  refine bind current fun t u htu => bind advance fun _ _ _ => bind current fun t' u' htu' => ?_
  rw [← htu'.kind, hxy]
  split
  · rename_i hident
    rw [htu'.word (by rw [hident]; simp)]
    split
    · exact pure htu'.stop
    · exact fail _
  · exact pure htu.stop

/-- The declarations found so far, recast. -/
def recastFound (r : Recast) (f : Parser.Found) : Parser.Found :=
  ⟨f.items.map (·.recast r), r.place f.last⟩

theorem itemStep {x y : Ident} (hxy : x.name = y.name) {f g : Parser.Found}
    (hfg : L.Same recastFound f g) :
    L.Alike (Sum.LiftRel (L.Same recastFound) (L.Same recastFound)) (Parser.itemStep x f)
      (Parser.itemStep y g) := by
  simp only [Same, recastFound, Parser.Found.mk.injEq] at hfg
  refine bind current fun t u htu => ?_
  rw [htu.kind]
  split
  · refine bind (packageEnd hxy) fun m n hmn => pure (.inr ?_)
    simp only [Same] at hmn
    simp only [Same, recastFound, hfg.1, hmn]
  · refine bind item? fun a b hab => pure (.inl ?_)
    have hlist := congrArg Option.toList hab
    simp only [Option.toList_map] at hlist
    simp only [Same, recastFound, List.map_append, hfg.1, hlist, htu.start]

theorem items {x y : Ident} (hxy : x.name = y.name) :
    L.Alike (L.Same fun r p => (p.1.map (Item.recast r), r.place p.2)) (Parser.items x)
      (Parser.items y) := by
  refine bind current fun t u htu => ?_
  refine bind (iterate (fun _ _ h => itemStep hxy h) (fun _ _ h => h) ?_) fun f g h => pure ?_
  · simp only [Same, recastFound, htu.start, List.map_nil]
  · simp only [Same, recastFound, Parser.Found.mk.injEq] at h
    simp only [Same, List.map_reverse, h]

/-! ## Packages -/

theorem packageName : L.Alike L.SameName Parser.packageName Parser.packageName := by
  have hclauses : L.Tests fun t => t.kind = .keyword .is || t.kind = .keyword .as :=
    fun t u htu => by simp only [htu.kind]
  refine bind sameName fun x y hxy => bind advance fun _ _ _ => bind (isAt _) fun dot _ heq => ?_
  subst heq
  split
  · exact bind (bind advance fun _ _ _ => sameName) fun _ _ hxy => bind advance fun _ _ _ =>
      bind (takeTo hclauses) fun _ _ _ => pure hxy
  · exact bind (takeTo hclauses) fun _ _ _ => pure hxy

theorem package? {t u : DocToken} (htu : L.Token i j t u) :
    L.Alike (L.Same fun r => Option.map (Package.recast r)) (Parser.package? t)
      (Parser.package? u) := by
  refine bind (isAt _) fun body _ heq => ?_
  subst heq
  split
  · exact bind packageBody fun _ _ _ => pure rfl
  · refine bind packageName fun x y hname => bind (items hname.2) fun p q hpq => ?_
    refine bind (log _ _) fun _ _ _ => pure ?_
    have hxy := hname.1
    simp only [Same, Prod.mk.injEq] at hxy hpq
    simp only [Same, Option.map_some, Package.recast_ofItems, htu.lead, htu.start, hxy, hpq]

theorem splits_splitPackage (create? create?' : Option DocToken)
    (h : create?.isSome = create?'.isSome) : L.Splits (splitPackage create?) (splitPackage create?') := by
  intro ts us hts
  induction hts generalizing create? create?' with
  | nil => exact ⟨.nil, .nil⟩
  | @cons t u ts us ht hts ih =>
    have hnext : (pendingCreate create? t).isSome = (pendingCreate create?' u).isSome := by
      unfold pendingCreate
      rw [ht.kind]
      split <;> simp [h]
    simp only [splitPackage, ht.kind, h]
    split
    · exact ⟨.nil, .cons ht hts⟩
    · exact ⟨.cons ht (ih _ _ hnext).1, (ih _ _ hnext).2⟩

theorem foldl_pendingCreate {ts us : List DocToken} (hts : List.Forall₂ (L.Token i j) ts us)
    {create? create?' : Option DocToken} (h : Option.Rel (L.Token i j) create? create?') :
    Option.Rel (L.Token i j) (ts.foldl pendingCreate create?) (us.foldl pendingCreate create?') := by
  induction hts generalizing create? create?' with
  | nil => exact h
  | @cons t u ts us ht hts ih =>
    refine ih ?_
    unfold pendingCreate
    rw [ht.kind]
    split
    · exact .some ht
    · exact .none
    · exact h

theorem nextCreate? :
    L.Alike (Option.Rel (L.Token i j)) Parser.nextCreate? Parser.nextCreate? := by
  refine bind (passTo _ _ (splits_splitPackage _ _ rfl)) fun ts us hts => ?_
  refine bind atEnd fun ended _ heq => ?_
  subst heq
  refine pure ?_
  split
  · exact .none
  · exact foldl_pendingCreate hts .none

/-- Two states of the search for packages that agree. -/
def Searches (L : Likeness i j) (s s' : Parser.Search) : Prop :=
  L.Token i j s.create s'.create ∧ L.Same (fun r => List.map (Package.recast r)) s.packages s'.packages

theorem packageStep {s s' : Parser.Search} (hs : L.Searches s s') :
    L.Alike (Sum.LiftRel L.Searches (L.Same fun r => List.map (Package.recast r)))
      (Parser.packageStep s) (Parser.packageStep s') := by
  obtain ⟨hcreate, hpackages⟩ := hs
  refine bind (package? hcreate) fun p q hpq => ?_
  have hlist := congrArg Option.toList hpq
  simp only [Option.toList_map] at hlist
  simp only [Same] at hpackages
  refine bind nextCreate? fun c c' hc => ?_
  cases hc with
  | some hc =>
    refine pure (.inl ⟨hc, ?_⟩)
    simp only [Same, List.map_append, hlist, hpackages]
  | none =>
    refine pure (.inr ?_)
    simp only [Same, List.map_append, List.map_reverse, hlist, hpackages]

/-- **The packages of two inputs that have a likeness agree.** -/
theorem packages :
    L.Alike (L.Same fun r => List.map (Package.recast r)) Parser.packages Parser.packages := by
  refine bind nextCreate? fun c c' hc => ?_
  cases hc with
  | some hc =>
    refine iterate (fun _ _ h => packageStep h) (fun s s' h => ?_) ⟨hc, rfl⟩
    have hpackages := h.2
    simp only [Same] at hpackages
    simp only [Same, List.map_reverse, hpackages]
  | none => exact pure rfl

/-! ## Files -/

/-- **Two inputs whose tokens agree are parsed alike**: either both give packages
    that agree, or both fail. -/
theorem parse (L : Likeness i j) (h : List.Forall₂ (L.Token i j) i.tokens j.tokens) :
    (∃ ps qs, i.parse.result = .ok ⟨i.file, ps⟩ ∧ j.parse.result = .ok ⟨j.file, qs⟩ ∧
      ps.map (·.recast L.left) = qs.map (·.recast L.right)) ∨
    ∃ e e', i.parse.result = .error e ∧ j.parse.result = .error e' ∧ L.error e e' := by
  have hpackages := packages (L := L) _ _ ⟨List.suffix_refl _, List.suffix_refl _, h⟩
  have hreached (hi : i.tokens = [] → i.fault? = none) (hj : j.tokens = [] → j.fault? = none) :
      (∃ ps qs, i.parse.result = .ok ⟨i.file, ps⟩ ∧ j.parse.result = .ok ⟨j.file, qs⟩ ∧
        ps.map (·.recast L.left) = qs.map (·.recast L.right)) ∨
      ∃ e e', i.parse.result = .error e ∧ j.parse.result = .error e' ∧ L.error e e' := by
    rw [Input.parse_result hi, Input.parse_result hj]
    generalize Parser.packages.outcome i i.tokens = x at hpackages ⊢
    generalize Parser.packages.outcome j j.tokens = y at hpackages ⊢
    cases hpackages with
    | ok hpq _ => exact .inl ⟨_, _, rfl, rfl, hpq⟩
    | error he => exact .inr ⟨_, _, rfl, rfl, he⟩
  rcases L.fault with ⟨hi, hj⟩ | ⟨e, e', hi, hj, he⟩
  · exact hreached (fun _ => hi) (fun _ => hj)
  · cases hts : i.tokens with
    | nil =>
      have hus : j.tokens = [] := by simpa [hts] using h
      exact .inr ⟨_, _, by simp only [Input.parse, hts, hi], by simp only [Input.parse, hus, hj], he⟩
    | cons t ts =>
      have hus : j.tokens ≠ [] := by
        intro hus
        simp [hts, hus] at h
      exact hreached (by simp [hts]) (fun h => absurd h hus)

end PackageDoc.Likeness
