/-
  Productions on the words of declarations.

  Where the tokens that are left start with the words of a canonical declaration
  (`Shown`), the production of that declaration reads these tokens, leaves what
  follows them and gives the declaration back, up to its places.  There is one
  statement for each production, from the parts of a field up to the declarations
  of a package (`item_shown`).  The input is one that was scanned to its end.
-/
import PackageDoc.Proofs.Decl.Recast
import PackageDoc.Proofs.Parser.FieldTokens
import PackageDoc.Proofs.Parser.Place
import PackageDoc.Proofs.Parser.Reassembly

namespace PackageDoc

/-! ## Tokens that are words -/

theorem Ident.recast_unplaced {x y : Ident} (h : x.name = y.name) :
    x.recast .unplaced = y.recast .unplaced := by
  simp only [Ident.recast, Span.recast, Recast.unplaced, h]

/-- Fields with the same parts, up to their places. -/
theorem Field.recast_unplaced {f g : Field} (hdoc : f.doc = g.doc)
    (hname : f.name.name = g.name.name)
    (htype : f.type?.map (·.recast .unplaced) = g.type?.map (·.recast .unplaced))
    (hkind : f.kind = g.kind) (hmode : f.mode = g.mode)
    (hdefault : f.default?.map (·.recast .unplaced) = g.default?.map (·.recast .unplaced))
    (hnull : f.notNull = g.notNull) : f.recast .unplaced = g.recast .unplaced := by
  simp only [Field.recast, hdoc, Ident.recast_unplaced hname, htype, hkind, hmode, hdefault, hnull]

namespace Shown

variable {ds : List DocToken} {w : TokenKind × String} {ws vs : List (TokenKind × String)}

theorem cons_inv (h : Shown ds (w :: ws)) : ∃ d ds', d.Shows w ∧ Shown ds' ws ∧ ds = d :: ds' :=
  List.forall₂_cons_right_iff.1 h

theorem append_inv (h : Shown ds (ws ++ vs)) :
    ∃ ds₁ ds₂, Shown ds₁ ws ∧ Shown ds₂ vs ∧ ds = ds₁ ++ ds₂ :=
  ⟨_, _, List.forall₂_take_append _ _ _ h, List.forall₂_drop_append _ _ _ h,
    (List.take_append_drop _ ds).symm⟩

theorem exists_word (h : Shown ds ws) {d : DocToken} (hd : d ∈ ds) : ∃ w ∈ ws, d.Shows w := by
  induction h with
  | nil => cases hd
  | cons hw _ ih =>
    rcases List.mem_cons.1 hd with rfl | hd
    · exact ⟨_, List.mem_cons_self, hw⟩
    · obtain ⟨w, hw', hshows⟩ := ih hd
      exact ⟨w, List.mem_cons_of_mem _ hw', hshows⟩

theorem kind_ne (h : Shown ds ws) {kind : TokenKind} (hws : ∀ w ∈ ws, w.1 ≠ kind) :
    ∀ d ∈ ds, d.kind ≠ kind := by
  intro d hd
  obtain ⟨w, hw, hshows⟩ := h.exists_word hd
  rw [hshows.kind]
  exact hws w hw

theorem word_eq (h : Shown ds ws) : (plainTokens ds).map Token.word = ws := by
  induction h with
  | nil => rfl
  | @cons d w ds ws hw _ ih =>
    have hword : d.token.word = w := Prod.ext hw.kind hw.lexeme
    rw [plainTokens, List.map_cons, List.map_cons, hword]
    exact congrArg _ ih

/-- The words of a text give the text back. -/
theorem text {x : Ident} (hx : x.Spelled) (h : Shown ds x.words) :
    tokensText (plainTokens ds) = x.name := by
  rw [← wordsText_word, h.word_eq, hx.text]

theorem ofTokens? {x : Ident} (hx : x.Spelled) (h : Shown ds x.words) :
    ∃ y, Ident.ofTokens? (plainTokens ds) = some y ∧ y.name = x.name := by
  have hne : plainTokens ds ≠ [] := by
    intro hnil
    have hwords := h.word_eq
    rw [hnil] at hwords
    exact hx.ne_nil hwords.symm
  obtain ⟨t, ts, hts⟩ := List.exists_cons_of_ne_nil hne
  obtain ⟨init, u, hu⟩ := (List.eq_nil_or_concat (plainTokens ds)).resolve_left hne
  have hhead : (plainTokens ds).head? = some t := by rw [hts]; rfl
  have hlast : (plainTokens ds).getLast? = some u := by rw [hu]; simp
  have heq : Ident.ofTokens? (plainTokens ds) =
      some ⟨tokensText (plainTokens ds), t.span.start, max u.span.stop t.span.start⟩ := by
    simp only [Ident.ofTokens?, hhead, hlast]
  exact ⟨_, heq, h.text hx⟩

theorem ofTokens {x : Ident} (hx : x.Spelled) (h : Shown ds x.words) (pos : Nat) :
    (Ident.ofTokens pos (plainTokens ds)).recast .unplaced = x.recast .unplaced := by
  obtain ⟨y, hy, hname⟩ := h.ofTokens? hx
  rw [Ident.ofTokens, hy]
  exact Ident.recast_unplaced hname

/-! ## Parts of a text -/

/-- A balanced text without a word that ends it is read up to what ends it. -/
theorem splitNested_eq {stop : TokenKind → Bool} {depth : Nat} (h : Shown ds ws)
    (hbalanced : balanced depth ws = true)
    (houter : (outerWords depth ws).all (fun w => !stop w.1) = true) {u : DocToken}
    (hu : u.kind = .op .closeParen ∨ stop u.kind = true) (rest : List DocToken) :
    splitNested stop depth (ds ++ u :: rest) = (ds, u :: rest) := by
  have hws : wordsOf ds = ws := h.word_eq
  subst hws
  exact splitNested_of_balanced hbalanced houter hu rest

/-- The type of a variable goes up to its default value. -/
theorem splitDefault_eq {depth : Nat} (h : Shown ds ws) (hbalanced : balanced depth ws = true)
    (houter : (outerWords depth ws).all (fun w => !startsDefault w.1) = true) :
    splitDefault depth ds = (ds, []) ∧
      ∀ (u : DocToken) (rest : List DocToken), startsDefault u.kind = true →
        splitDefault depth (ds ++ u :: rest) = (ds, rest) := by
  have hws : wordsOf ds = ws := h.word_eq
  subst hws
  exact splitDefault_of_balanced hbalanced houter

theorem saysNotNull_eq (h : Shown ds ws) : saysNotNull ds = Field.saysNotNull ws := by
  induction h with
  | nil => rfl
  | @cons d w ds ws hw htail ih =>
    cases htail with
    | nil => rfl
    | @cons d' w' ds ws hw' htail =>
      rw [saysNotNull, ih, hw.kind, hw'.kind]
      simp [Field.saysNotNull]

end Shown

namespace Parser

variable {α β : Type} {i : Input} {ds ts mid rest : List DocToken} {t u : DocToken}

/-! ## Running forwards -/

namespace Returns

variable {p q : Parser α} {f : α → Parser β} {a : α} {b : β}

theorem bind (hp : Returns p i ts a mid) (hf : Returns (f a) i mid b rest) :
    Returns (p >>= f) i ts b rest :=
  returns_bind.2 ⟨a, mid, hp, hf⟩

theorem then_ {c : Prop} [Decidable c] (hc : c) (h : Returns p i ts a rest) :
    Returns (if c then p else q) i ts a rest := by
  rwa [if_pos hc]

theorem else_ {c : Prop} [Decidable c] (hc : ¬ c) (h : Returns q i ts a rest) :
    Returns (if c then p else q) i ts a rest := by
  rwa [if_neg hc]

theorem pure (a : α) (ts : List DocToken) : Returns (pure a) i ts a ts :=
  returns_pure.2 ⟨rfl, rfl⟩

theorem current (t : DocToken) (ts : List DocToken) : Returns current i (t :: ts) t (t :: ts) :=
  returns_current.2 ⟨rfl, rfl⟩

theorem isAt (kind : TokenKind) (t : DocToken) (ts : List DocToken) :
    Returns (isAt kind) i (t :: ts) (decide (t.kind = kind)) (t :: ts) :=
  returns_isAt.2 ⟨rfl, rfl⟩

theorem require {kind : TokenKind} (ht : t.kind = kind) (ts : List DocToken) :
    Returns (require kind) i (t :: ts) () (t :: ts) :=
  returns_require.2 ⟨ht, rfl⟩

theorem advance (hi : i.fault? = none) (t : DocToken) (ts : List DocToken) :
    Returns advance i (t :: ts) () ts :=
  returns_advance.2 ⟨rfl, .of_fault_none hi _ _⟩

theorem name (ht : t.kind = .ident) (ts : List DocToken) :
    Returns name i (t :: ts) ⟨t.lexeme, t.span⟩ (t :: ts) :=
  returns_name.2 ⟨ht, rfl, rfl⟩

theorem nextName (hi : i.fault? = none) (hu : u.kind = .ident) (t : DocToken) (ts : List DocToken) :
    Returns nextName i (t :: u :: ts) ⟨u.lexeme, u.span⟩ (u :: ts) :=
  (advance hi t _).bind (name hu ts)

end Returns

variable (rest)

theorem takeTo_stop (hi : i.fault? = none) {stop : DocToken → Bool}
    (hds : ∀ d ∈ ds, stop d = false) (hu : stop u = true) :
    Returns (takeTo stop) i (ds ++ u :: rest) ds (u :: rest) := by
  obtain ⟨htake, hdrop⟩ := takeWhile_append_stop (p := fun d => !stop d) ds (u :: rest)
    (fun d hd => by rw [hds d hd]; rfl) (fun d hd => by cases hd; rw [hu]; rfl)
  exact returns_takeTo.2 ⟨htake.symm, hdrop.symm, .of_fault_none hi _ _⟩

theorem takeTo_kind (hi : i.fault? = none) {kind : TokenKind} (hds : ∀ d ∈ ds, d.kind ≠ kind)
    (hu : u.kind = kind) : Returns (takeTo (·.kind = kind)) i (ds ++ u :: rest) ds (u :: rest) :=
  takeTo_stop rest hi (by simpa using hds) (by simpa using hu)

theorem skipTo_kind (hi : i.fault? = none) {kind : TokenKind} (hds : ∀ d ∈ ds, d.kind ≠ kind)
    (hu : u.kind = kind) : Returns (skipTo kind) i (ds ++ u :: rest) () (u :: rest) :=
  (takeTo_kind rest hi hds hu).bind (.pure _ _)

theorem takeTo_here (hi : i.fault? = none) {stop : DocToken → Bool} (hu : stop u = true) :
    Returns (takeTo stop) i (u :: rest) [] (u :: rest) := by
  show Returns (takeTo stop) i ([] ++ u :: rest) [] (u :: rest)
  exact takeTo_stop rest hi (by simp) hu

theorem skipTo_here (hi : i.fault? = none) {kind : TokenKind} (hu : u.kind = kind) :
    Returns (skipTo kind) i (u :: rest) () (u :: rest) :=
  (takeTo_here rest hi (by simpa using hu)).bind (.pure _ _)

theorem takeNested_shown (hi : i.fault? = none) {stop : TokenKind → Bool} {x : Ident}
    (hx : x.Spelled) (h : Shown ds x.words) (houter : outsideNone stop x.words = true)
    (hu : u.kind = .op .closeParen ∨ stop u.kind = true) :
    Returns (takeNested stop) i (ds ++ u :: rest) ds (u :: rest) := by
  have hsplit := h.splitNested_eq hx.balanced houter hu rest
  exact returns_passTo.2 ⟨by rw [hsplit], by rw [hsplit], .of_fault_none hi _ _⟩

/-! ## Parameters -/

theorem passMode_shown (hi : i.fault? = none) (m : PassMode) (h : Shown ds m.words)
    (hu : u.kind = .ident) : Returns passMode i (ds ++ u :: rest) m (u :: rest) := by
  cases m with
  | unstated =>
    cases h
    simp [passMode, Input.current, hu]
  | input =>
    obtain ⟨d, ds, hd, hnil, rfl⟩ := h.cons_inv
    cases hnil
    simp [passMode, Input.current, hd.kind, Keyword.word, hu, Reaches.of_fault_none hi]
  | output =>
    obtain ⟨d, ds, hd, hnil, rfl⟩ := h.cons_inv
    cases hnil
    simp [passMode, Input.current, hd.kind, Keyword.word, Reaches.of_fault_none hi]
  | inputOutput =>
    obtain ⟨d, ds, hd, htail, rfl⟩ := h.cons_inv
    obtain ⟨e, ds, he, hnil, rfl⟩ := htail.cons_inv
    cases hnil
    simp [passMode, Input.current, hd.kind, he.kind, Keyword.word, Reaches.of_fault_none hi]

theorem paramDefault_shown (hi : i.fault? = none) {f : Field} (hkind : f.kind = .parameter)
    (hdefault : f.default?.all (·.isCanonical (outsideNone (· = .op .comma))) = true)
    (h : Shown ds f.defaultWords) (hu : u.kind = .op .comma ∨ u.kind = .op .closeParen) :
    ∃ d, Returns paramDefault i (ds ++ u :: rest) d (u :: rest) ∧
      d.map (·.recast .unplaced) = f.default?.map (·.recast .unplaced) := by
  unfold Field.defaultWords at h
  cases hd : f.default? with
  | none =>
    rw [hd] at h
    cases h
    refine ⟨none, ?_, rfl⟩
    rcases hu with hu | hu <;> simp [paramDefault, Input.current, hu, startsDefault]
  | some x =>
    rw [hd] at h hdefault
    obtain ⟨hx, houter⟩ := Ident.spelled_of_isCanonical hdefault
    obtain ⟨d, ds, hword, hds, rfl⟩ := h.cons_inv
    obtain ⟨y, hy, hname⟩ := hds.ofTokens? hx
    have hstart : startsDefault d.kind = true := by
      rw [hword.kind, if_pos hkind]
      rfl
    have hnested := takeNested_shown rest hi hx hds houter (u := u) (by simpa using hu.symm)
    refine ⟨some y, ?_, by simpa using Ident.recast_unplaced hname⟩
    refine (Returns.current d _).bind (.then_ hstart ?_)
    refine (Returns.advance hi d _).bind (hnested.bind (returns_atEnd_bind.2 ?_))
    simp [hy]

/-- A parameter or a field of a record, up to the comma or the parenthesis behind it. -/
theorem param_shown (hi : i.fault? = none) {f : Field} (hf : f.isListed = true)
    (h : Shown ds f.words) (hu : u.kind = .op .comma ∨ u.kind = .op .closeParen) :
    ∃ f', Returns param i (ds ++ u :: rest) f' (u :: rest) ∧
      f'.recast .unplaced = f.recast .unplaced := by
  obtain ⟨-, hdoc, hkind, hnull, x, htype, hx, hdefault⟩ := Field.parts_of_isListed hf
  obtain ⟨hspelled, hwords⟩ := Ident.spelled_of_isCanonical hx
  simp only [Bool.and_eq_true, Option.any_eq_true] at hwords
  obtain ⟨⟨w, hw, hfirst, hcopy⟩, houter⟩ := hwords
  simp only [Field.words, Field.kindWords, hkind, htype, Option.map_some, Option.getD_some] at h
  obtain ⟨n, ds', hn, hds', rfl⟩ := h.cons_inv
  obtain ⟨ms, ds'', hms, hds'', rfl⟩ := hds'.append_inv
  obtain ⟨xs, vs, hxs, hvs, rfl⟩ := hds''.append_inv
  -- the type starts with a name, which is not taken for a mode or `nocopy`
  obtain ⟨ws, hws⟩ := List.head?_eq_some_iff.1 hw
  obtain ⟨v, xs', hv, -, hxs'⟩ := Shown.cons_inv (hws ▸ hxs)
  have hvkind : v.kind = .ident := hv.kind.trans (by simpa using hfirst)
  have hvcopy : v.lexeme ≠ "nocopy" := by
    rw [hv.lexeme]
    simpa using hcopy
  -- and ends with the default value, or where the parameter does
  obtain ⟨u', rest', hrest', hu'⟩ : ∃ u' rest', vs ++ u :: rest = u' :: rest' ∧
      (u'.kind = .op .closeParen ∨
        (decide (u'.kind = .op .comma) || startsDefault u'.kind) = true) := by
    unfold Field.defaultWords at hvs
    split at hvs
    · cases hvs
      exact ⟨u, rest, rfl, by simpa [or_comm] using hu.imp_left Or.inl⟩
    · obtain ⟨d, vs', hd, -, rfl⟩ := hvs.cons_inv
      exact ⟨d, vs' ++ u :: rest, rfl, .inr (by rw [hd.kind, if_pos hkind]; rfl)⟩
  have htypes := takeNested_shown rest' hi hspelled hxs houter hu'
  obtain ⟨d, hd, hd'⟩ := paramDefault_shown rest hi hkind hdefault hvs hu
  rw [← hrest'] at htypes
  refine ⟨.ofParameter n.fieldDoc ⟨n.lexeme, n.span⟩ f.mode
    (.ofTokens v.span.start (plainTokens xs)) d, ?_, ?_⟩
  · have hmode := passMode_shown (xs' ++ (vs ++ u :: rest)) hi f.mode hms hvkind
    rw [List.cons_append, List.append_assoc, List.append_assoc, hxs', List.cons_append]
    refine (Returns.current n _).bind ((Returns.advance hi n _).bind (hmode.bind ?_))
    refine (Returns.current v _).bind (.else_ (by simp [hvcopy]) ?_)
    refine (Returns.current v _).bind (.then_ (by simp [hvkind, TokenKind.isKeyword]) ?_)
    refine (Returns.require hvkind _).bind ?_
    rw [← List.cons_append, ← hxs']
    exact htypes.bind (hd.bind (.pure _ _))
  · have htype' := hxs.ofTokens hspelled v.span.start
    refine Field.recast_unplaced ?_ hn.lexeme ?_ hkind.symm rfl hd' hnull.symm
    · rw [hdoc]
      exact hn.fieldDoc
    · rw [htype]
      exact congrArg some htype'

/-! ## Lists of fields -/

/-- The rounds of a list: behind the last field its closing parenthesis is left. -/
theorem fieldLoop_shown (hi : i.fault? = none) {fs : List Field} (hne : fs ≠ [])
    (hfs : ∀ f ∈ fs, f.isListed = true) (h : Shown ds (Field.listWords fs)) (opening : Nat)
    (done : List Field) (t : DocToken) :
    ∃ l u, Returns (iterate (fieldStep opening) (fun done => ⟨opening, done.reverse, opening⟩) done)
        i (t :: (ds ++ rest)) l (u :: rest) ∧
      l.fields.map (·.recast .unplaced) = (done.reverse ++ fs).map (·.recast .unplaced) := by
  induction fs generalizing ds done t with
  | nil => exact absurd rfl hne
  | cons f fs ih =>
    have hf := hfs f (by simp)
    cases fs with
    | nil =>
      obtain ⟨xs, us, hxs, hus, rfl⟩ := h.append_inv
      obtain ⟨u, us, hu, hnil, rfl⟩ := hus.cons_inv
      cases hnil
      obtain ⟨f', hparam, hf'⟩ := param_shown rest hi hf hxs (.inr hu.kind)
      refine ⟨⟨opening, (f' :: done).reverse, u.span.start⟩, u, ?_, by simp [hf']⟩
      have hstep : Returns (fieldStep opening done) i (xs ++ u :: rest)
          (.inr ⟨opening, (f' :: done).reverse, u.span.start⟩) (u :: rest) :=
        hparam.bind ((Returns.current u _).bind (.then_ hu.kind (.pure _ _)))
      rw [List.append_assoc]
      exact returns_iterate_cons.2 ⟨.of_fault_none hi _ _, _, _, hstep, .pure _ _⟩
    | cons g fs =>
      obtain ⟨xs, us, hxs, hus, rfl⟩ := h.append_inv
      obtain ⟨u, us, hu, hus', rfl⟩ := hus.cons_inv
      have hcomma : u.kind = .op .comma := hu.kind
      obtain ⟨f', hparam, hf'⟩ := param_shown (us ++ rest) hi hf hxs (.inl hcomma)
      have hstep : Returns (fieldStep opening done) i (xs ++ u :: (us ++ rest))
          (.inl (f' :: done)) (u :: (us ++ rest)) :=
        hparam.bind ((Returns.current u _).bind (.else_ (by simp [hcomma])
          ((Returns.require hcomma _).bind (.pure _ _))))
      obtain ⟨l, v, hloop, hl⟩ :=
        ih (by simp) (fun f hf => hfs f (by simp [hf])) hus' (f' :: done) u
      refine ⟨l, v, ?_, by simp [hl, hf']⟩
      rw [List.append_assoc, List.cons_append]
      exact returns_iterate_cons.2 ⟨.of_fault_none hi _ _, _, _, hstep, hloop⟩

theorem fieldList_shown (hi : i.fault? = none) {l : FieldList} (hl : l.isCanonical = true)
    (h : Shown ds (Operator.openParen.word :: Field.listWords l.fields)) :
    ∃ l', Returns fieldList i (ds ++ rest) l' rest ∧ l'.recast .unplaced = l.recast .unplaced := by
  simp only [FieldList.isCanonical, Bool.and_eq_true, Bool.not_eq_true', List.all_eq_true] at hl
  obtain ⟨t, ds', ht, hds', rfl⟩ := h.cons_inv
  obtain ⟨l', u, hloop, hl'⟩ := fieldLoop_shown rest hi (by simpa using hl.1) hl.2 hds'
    t.span.start [] t
  refine ⟨l', (Returns.current t _).bind (hloop.bind ?_), ?_⟩
  · exact (Returns.advance hi u _).bind (.pure _ _)
  · simp only [FieldList.recast, hl']
    rfl

/-- An optional list, before anything but a parenthesis. -/
theorem fieldList?_shown (hi : i.fault? = none) {l? : Option FieldList}
    (hl : l?.all (·.isCanonical) = true) (h : Shown ds (listWords? l?))
    (hu : u.kind ≠ .op .openParen) :
    ∃ l?', Returns fieldList? i (ds ++ u :: rest) l?' (u :: rest) ∧
      l?'.map (·.recast .unplaced) = l?.map (·.recast .unplaced) := by
  cases l? with
  | none =>
    cases h
    exact ⟨none, (Returns.isAt _ u _).bind (.else_ (by simpa using hu) (.pure _ _)), rfl⟩
  | some l =>
    obtain ⟨l', hlist, hl'⟩ := fieldList_shown (u :: rest) hi hl h
    obtain ⟨t, ds', ht, -, rfl⟩ := Shown.cons_inv h
    have hopen : decide (t.kind = .op .openParen) = true := decide_eq_true ht.kind
    refine ⟨some l', (Returns.isAt _ t _).bind (.then_ hopen ?_), congrArg some hl'⟩
    exact hlist.bind (.pure _ _)

/-! ## Variables -/

/-- The tokens of a type and a default value, as they are told apart. -/
theorem splitDefault_shown {f : Field} {x : Ident} {xs vs : List DocToken}
    (hkind : f.kind ≠ .parameter) (hx : f.isDeclaredType x = true)
    (hdefault : f.default?.all (·.isCanonical fun _ => true) = true) (hxs : Shown xs x.words)
    (hvs : Shown vs f.defaultWords) :
    (∀ d ∈ xs ++ vs, d.kind ≠ .op .semicolon) ∧
      ∃ vs', splitDefault 0 (xs ++ vs) = (xs, vs') ∧
        (Ident.ofTokens? (plainTokens vs')).map (·.recast .unplaced) =
          f.default?.map (·.recast .unplaced) := by
  obtain ⟨hspelled, hwords⟩ := Ident.spelled_of_isCanonical hx
  simp only [Bool.and_eq_true] at hwords
  obtain ⟨hsplit, hsplit'⟩ := hxs.splitDefault_eq hspelled.balanced hwords.1.1
  have hinside := hxs.kind_ne hspelled.inside
  unfold Field.defaultWords at hvs
  cases hd : f.default? with
  | none =>
    rw [hd] at hvs
    cases hvs
    rw [List.append_nil]
    exact ⟨hinside, [], hsplit, rfl⟩
  | some d =>
    rw [hd] at hvs hdefault
    obtain ⟨hspelled', -⟩ := Ident.spelled_of_isCanonical hdefault
    obtain ⟨a, vs', ha, hvs', rfl⟩ := hvs.cons_inv
    rw [if_neg hkind] at ha
    obtain ⟨y, hy, hname⟩ := hvs'.ofTokens? hspelled'
    have hassign : a.kind = .op .assign := ha.kind
    refine ⟨?_, vs', hsplit' a vs' (by rw [hassign]; rfl), ?_⟩
    · intro e he
      rcases List.mem_append.1 he with he | he
      · exact hinside e he
      · rcases List.mem_cons.1 he with rfl | he
        · simp [hassign]
        · exact hvs'.kind_ne hspelled'.inside e he
    · rw [hy]
      exact congrArg some (Ident.recast_unplaced hname)

/-- A variable or a constant, given the tokens between its name and its semicolon. -/
theorem typedField_shown (hi : i.fault? = none) {f : Field} {x : Ident}
    (hkind : f.kind = .variable_ ∨ f.kind = .constant) (htype : f.type? = some x)
    (hdoc : f.doc = none) (hmode : f.mode = .unstated) (hx : f.isDeclaredType x = true)
    (hdefault : f.default?.all (·.isCanonical fun _ => true) = true) {n : DocToken}
    (hn : n.Shows (nameWord f.name.name)) (hnkind : n.kind = .ident) {ks xs vs : List DocToken}
    (hks : Shown ks f.kindWords) (hxs : Shown xs x.words) (hvs : Shown vs f.defaultWords)
    (hu : u.kind = .op .semicolon) :
    ∃ f', Returns variableField i (n :: (ks ++ (xs ++ vs ++ u :: rest))) f' (u :: rest) ∧
      f'.recast .unplaced = f.recast .unplaced := by
  have hparameter : f.kind ≠ .parameter := by
    rcases hkind with hkind | hkind <;> simp [hkind]
  obtain ⟨hinside, vs', hsplit, hvs'⟩ := splitDefault_shown hparameter hx hdefault hxs hvs
  obtain ⟨hspelled, hwords⟩ := Ident.spelled_of_isCanonical hx
  simp only [Bool.and_eq_true, beq_iff_eq] at hwords
  obtain ⟨⟨-, hnull⟩, hstart⟩ := hwords
  have htake := takeTo_kind rest hi hinside hu
  -- the first token of the type
  obtain ⟨w, ws, hws⟩ := List.exists_cons_of_ne_nil hspelled.ne_nil
  obtain ⟨v, xs', hv, -, hxs'⟩ := Shown.cons_inv (hws ▸ hxs)
  rw [hxs'] at htake
  rcases hkind with hkind | hkind
  · have hks : Shown ks [] := by simpa [Field.kindWords, hkind] using hks
    cases hks
    have hstart : v.kind ≠ .keyword .constant ∧ v.kind ≠ .keyword .exception := by
      rw [hv.kind]
      simpa [hkind, hws] using hstart
    refine ⟨.ofVariable n.leadDoc ⟨n.lexeme, n.span⟩ (.ofTokens v.span.start (plainTokens xs))
      (Ident.ofTokens? (plainTokens vs')) (saysNotNull xs), ?_, ?_⟩
    · rw [List.nil_append, hxs']
      refine (Returns.current n _).bind ((Returns.name hnkind _).bind ?_)
      refine (Returns.advance hi n _).bind ?_
      refine (Returns.isAt _ v _).bind (.else_ (by simpa using hstart.2) ?_)
      refine (Returns.isAt _ v _).bind (.else_ (by simpa using hstart.1) ?_)
      refine (Returns.current v _).bind (htake.bind ?_)
      rw [← hxs', hsplit]
      simp [hstart.1]
    · refine Field.recast_unplaced (hn.leadDoc.trans hdoc.symm) hn.lexeme ?_ hkind.symm hmode.symm
        hvs' (hxs.saysNotNull_eq.trans hnull.symm)
      rw [htype]
      exact congrArg some (hxs.ofTokens hspelled _)
  · have hks : Shown ks [Keyword.constant.word] := by simpa [Field.kindWords, hkind] using hks
    obtain ⟨k, ks', hk, hnil, rfl⟩ := hks.cons_inv
    cases hnil
    have hk : k.kind = .keyword .constant := hk.kind
    refine ⟨.ofConstant n.leadDoc ⟨n.lexeme, n.span⟩ (.ofTokens v.span.start (plainTokens xs))
      (Ident.ofTokens? (plainTokens vs')) (saysNotNull xs), ?_, ?_⟩
    · rw [hxs']
      refine (Returns.current n _).bind ((Returns.name hnkind _).bind ?_)
      refine (Returns.advance hi n _).bind ?_
      refine (Returns.isAt _ k _).bind (.else_ (by simp [hk]) ?_)
      refine (Returns.isAt _ k _).bind (.then_ (by simp [hk]) ?_)
      refine (Returns.advance hi k _).bind ((Returns.current v _).bind (htake.bind ?_))
      rw [← hxs', hsplit]
      simp [hk]
    · refine Field.recast_unplaced (hn.leadDoc.trans hdoc.symm) hn.lexeme ?_ hkind.symm hmode.symm
        hvs' (hxs.saysNotNull_eq.trans hnull.symm)
      rw [htype]
      exact congrArg some (hxs.ofTokens hspelled _)

/-- A variable, a constant or an exception, before its semicolon.  Behind an exception
    its last word is left. -/
theorem variableField_shown (hi : i.fault? = none) {f : Field} (hf : f.isDeclared = true)
    (h : Shown ds f.words) (hu : u.kind = .op .semicolon) :
    ∃ f' left, Returns variableField i (ds ++ u :: rest) f' (left ++ u :: rest) ∧
      f'.recast .unplaced = f.recast .unplaced ∧ (left = [] ∨ ∃ d, left = [d]) := by
  obtain ⟨hname, hdoc, hmode, hcases⟩ := Field.cases_of_isDeclared hf
  simp only [isName, Bool.and_eq_true, decide_eq_true_eq] at hname
  obtain ⟨n, ds', hn, hds', rfl⟩ := h.cons_inv
  have hnkind : n.kind = .ident := hn.kind.trans hname.2
  rcases hcases with ⟨hkind, htype, hdefault, hnull⟩ | ⟨x, hkind, htype, hx, hdefault⟩
  · have hwords : Shown ds' [Keyword.exception.word] := by
      simpa [Field.kindWords, hkind, htype, Field.defaultWords, hdefault] using hds'
    obtain ⟨e, ds'', he, hnil, rfl⟩ := hwords.cons_inv
    cases hnil
    refine ⟨.ofException n.leadDoc ⟨n.lexeme, n.span⟩, [e], ?_, ?_, .inr ⟨e, rfl⟩⟩
    · refine (Returns.current n _).bind ((Returns.name hnkind _).bind ?_)
      refine (Returns.advance hi n _).bind ((Returns.isAt _ e _).bind ?_)
      exact .then_ (decide_eq_true he.kind) (.pure _ _)
    · refine Field.recast_unplaced (hn.leadDoc.trans hdoc.symm) hn.lexeme ?_ hkind.symm
        hmode.symm ?_ hnull.symm
      · rw [htype]
        rfl
      · rw [hdefault]
        rfl
  · obtain ⟨ks, ds'', hks, hds'', rfl⟩ := hds'.append_inv
    rw [htype, Option.map_some, Option.getD_some] at hds''
    obtain ⟨xs, vs, hxs, hvs, rfl⟩ := hds''.append_inv
    obtain ⟨f', hreturns, hf'⟩ :=
      typedField_shown rest hi hkind htype hdoc hmode hx hdefault hn hnkind hks hxs hvs hu
    refine ⟨f', [], ?_, hf', .inl rfl⟩
    rw [List.cons_append, List.append_assoc]
    exact hreturns

/-! ## Types -/

/-- A text behind a token, up to the semicolon. -/
theorem typeTail_shown (hi : i.fault? = none) {x : Ident} (hx : x.Spelled) (h : Shown ds x.words)
    (hu : u.kind = .op .semicolon) (t : DocToken) :
    ∃ x', Returns typeTail i (t :: (ds ++ u :: rest)) x' (u :: rest) ∧
      x'.recast .unplaced = x.recast .unplaced := by
  have htake := takeTo_kind rest hi (h.kind_ne hx.inside) hu
  exact ⟨_, (Returns.advance hi t _).bind (returns_current_bind.2 (htake.bind (.pure _ _))),
    h.ofTokens hx _⟩

/-- The bound of an array.  Its closing parenthesis is left. -/
theorem arrayBound?_shown (hi : i.fault? = none) {b? : Option Ident}
    (hb : b?.all (·.isCanonical fun _ => true) = true) (h : Shown ds (boundWords b?))
    (hu : u.kind = .keyword .of) :
    ∃ b?' left, Returns arrayBound? i (ds ++ u :: rest) b?' (left ++ u :: rest) ∧
      b?'.map (·.recast .unplaced) = b?.map (·.recast .unplaced) ∧
      ∀ d ∈ left, d.kind ≠ .keyword .of := by
  cases b? with
  | none =>
    cases h
    exact ⟨none, [], (Returns.current u _).bind (.else_ (by simp [hu]) (.pure _ _)), rfl, by simp⟩
  | some b =>
    obtain ⟨hspelled, -⟩ := Ident.spelled_of_isCanonical hb
    obtain ⟨t, ds', ht, hds', rfl⟩ := Shown.cons_inv h
    obtain ⟨bs, cs, hbs, hcs, rfl⟩ := hds'.append_inv
    obtain ⟨c, cs', hc, hnil, rfl⟩ := hcs.cons_inv
    cases hnil
    have hclose : c.kind = .op .closeParen := hc.kind
    have hnested : Returns (takeNested fun _ => false) i (bs ++ c :: u :: rest) bs
        (c :: u :: rest) :=
      takeNested_shown (u :: rest) hi hspelled hbs (by simp [outsideNone]) (.inl hclose)
    have hgroup : Returns group i (t :: (bs ++ c :: u :: rest)) (t :: bs ++ [c])
        (c :: u :: rest) := by
      refine (Returns.current t _).bind ((Returns.advance hi t _).bind (hnested.bind ?_))
      exact returns_atEnd_bind.2 (.else_ (by simp) ((Returns.current c _).bind (.pure _ _)))
    have htext : String.ofList (groupBody (tokensText (plainTokens (t :: bs ++ [c]))).toList) =
        b.name := by
      have hbody := groupBody_tokensText (plainTokens bs) ht.kind ht.lexeme hclose hc.lexeme
      rw [hbs.text hspelled] at hbody
      simpa [plainTokens] using hbody
    refine ⟨some ⟨String.ofList (groupBody (tokensText (plainTokens (t :: bs ++ [c]))).toList),
      t.span.start + 1, max (c.span.stop - 1) (t.span.start + 1)⟩, [c], ?_,
      congrArg some (Ident.recast_unplaced htext), by simp [hclose]⟩
    rw [List.cons_append, List.append_assoc]
    refine (Returns.current t _).bind (.then_ ht.kind (hgroup.bind ?_))
    exact (Returns.current c _).bind (.pure _ _)

theorem tableType_shown (hi : i.fault? = none) {element : Ident} (hx : element.Spelled)
    (h : Shown ds (TypeBody.table element).words) (hu : u.kind = .op .semicolon) :
    ∃ d, Returns tableType i (ds ++ u :: rest) d (u :: rest) ∧
      d.recast .unplaced = (TypeBody.table element).recast .unplaced := by
  obtain ⟨t, ds', ht, hds', rfl⟩ := Shown.cons_inv h
  obtain ⟨o, es, ho, hes, rfl⟩ := hds'.cons_inv
  obtain ⟨e, htail, he⟩ := typeTail_shown rest hi hx hes hu o
  have hskip := skipTo_here (es ++ u :: rest) hi ho.kind
  exact ⟨.table e, (Returns.advance hi t _).bind (hskip.bind (htail.bind (.pure _ _))),
    by simp [TypeBody.recast, he]⟩

theorem arrayType_shown (hi : i.fault? = none) {bound : Option Ident} {element : Ident}
    (hbound : bound.all (·.isCanonical fun _ => true) = true) (hx : element.Spelled)
    (h : Shown ds (TypeBody.varray bound element).words) (hu : u.kind = .op .semicolon) :
    ∃ d, Returns arrayType i (ds ++ u :: rest) d (u :: rest) ∧
      d.recast .unplaced = (TypeBody.varray bound element).recast .unplaced := by
  obtain ⟨t, ds', ht, hds', rfl⟩ := Shown.cons_inv h
  obtain ⟨bs, os, hbs, hos, rfl⟩ := hds'.append_inv
  obtain ⟨o, es, ho, hes, rfl⟩ := hos.cons_inv
  obtain ⟨b, left, hreturns, hb, hleft⟩ := arrayBound?_shown (es ++ u :: rest) hi hbound hbs ho.kind
  obtain ⟨e, htail, he⟩ := typeTail_shown rest hi hx hes hu o
  have hskip := skipTo_kind (es ++ u :: rest) hi hleft ho.kind
  refine ⟨.varray b e, ?_, by simp [TypeBody.recast, hb, he]⟩
  rw [List.cons_append, List.append_assoc, List.cons_append]
  exact (Returns.advance hi t _).bind (hreturns.bind (hskip.bind (htail.bind (.pure _ _))))

theorem recordType_shown (hi : i.fault? = none) {fields : FieldList}
    (hfields : fields.isCanonical = true) (h : Shown ds (TypeBody.record fields).words) :
    ∃ d, Returns recordType i (ds ++ u :: rest) d (u :: rest) ∧
      d.recast .unplaced = (TypeBody.record fields).recast .unplaced := by
  obtain ⟨t, ds', ht, hds', rfl⟩ := Shown.cons_inv h
  obtain ⟨l, hlist, hl⟩ := fieldList_shown (u :: rest) hi hfields hds'
  obtain ⟨p, ps, hp, -, rfl⟩ := hds'.cons_inv
  refine ⟨.record l, ?_, by simp [TypeBody.recast, hl]⟩
  exact (Returns.advance hi t _).bind ((Returns.require hp.kind _).bind (hlist.bind (.pure _ _)))

theorem refCursorType_shown (hi : i.fault? = none) {result : Option Ident}
    (hresult : result.all (·.isCanonical fun _ => true) = true)
    (h : Shown ds (TypeBody.refCursor result).words) (hu : u.kind = .op .semicolon) :
    ∃ d, Returns refCursorType i (ds ++ u :: rest) d (u :: rest) ∧
      d.recast .unplaced = (TypeBody.refCursor result).recast .unplaced := by
  obtain ⟨t, ds', ht, hds', rfl⟩ := Shown.cons_inv h
  obtain ⟨c, rs, hc, hrs, rfl⟩ := hds'.cons_inv
  cases result with
  | none =>
    cases hrs
    refine ⟨.refCursor none, (Returns.advance hi t _).bind ((Returns.require hc.kind _).bind ?_), rfl⟩
    refine (Returns.advance hi c _).bind ((Returns.isAt _ u _).bind ?_)
    exact .then_ (decide_eq_true hu) (.pure _ _)
  | some x =>
    obtain ⟨hspelled, -⟩ := Ident.spelled_of_isCanonical hresult
    obtain ⟨r, xs, hr, hxs, rfl⟩ := Shown.cons_inv hrs
    obtain ⟨x', htail, hx'⟩ := typeTail_shown rest hi hspelled hxs hu r
    have hr : r.kind = .keyword .return_ := hr.kind
    refine ⟨.refCursor (some x'), (Returns.advance hi t _).bind ((Returns.require hc.kind _).bind ?_),
      by simp [TypeBody.recast, hx']⟩
    refine (Returns.advance hi c _).bind ((Returns.isAt _ r _).bind (.else_ (by simp [hr]) ?_))
    exact (Returns.require hr _).bind (htail.bind (.pure _ _))

theorem typeBody?_shown (hi : i.fault? = none) {d : TypeBody} (hd : d.isCanonical = true)
    (h : Shown ds d.words) (hu : u.kind = .op .semicolon) (x : Ident) :
    ∃ d', Returns (typeBody? x) i (ds ++ u :: rest) (some d') (u :: rest) ∧
      d'.recast .unplaced = d.recast .unplaced := by
  -- the first word tells what type it is
  have hfirst {k : Keyword} {ws : List (TokenKind × String)} (h : Shown ds (k.word :: ws)) :
      (i.current (ds ++ u :: rest)).kind = .keyword k := by
    obtain ⟨t, ds', ht, -, rfl⟩ := h.cons_inv
    exact ht.kind
  cases d with
  | table element =>
    obtain ⟨hspelled, -⟩ := Ident.spelled_of_isCanonical hd
    obtain ⟨d', hreturns, hd'⟩ := tableType_shown rest hi hspelled h hu
    refine ⟨d', returns_current_bind.2 ?_, hd'⟩
    rw [hfirst h]
    exact hreturns.bind (.pure _ _)
  | varray bound element =>
    simp only [TypeBody.isCanonical, Bool.and_eq_true] at hd
    obtain ⟨hspelled, -⟩ := Ident.spelled_of_isCanonical hd.2
    obtain ⟨d', hreturns, hd'⟩ := arrayType_shown rest hi hd.1 hspelled h hu
    refine ⟨d', returns_current_bind.2 ?_, hd'⟩
    rw [hfirst h]
    exact hreturns.bind (.pure _ _)
  | record fields =>
    obtain ⟨d', hreturns, hd'⟩ := recordType_shown rest hi hd h
    refine ⟨d', returns_current_bind.2 ?_, hd'⟩
    rw [hfirst h]
    exact hreturns.bind (.pure _ _)
  | refCursor result =>
    obtain ⟨d', hreturns, hd'⟩ := refCursorType_shown rest hi hd h hu
    refine ⟨d', returns_current_bind.2 ?_, hd'⟩
    rw [hfirst h]
    exact hreturns.bind (.pure _ _)

/-- The word of a declaration and its name. -/
theorem opening_shown (hi : i.fault? = none) {w : TokenKind × String} {x : Ident}
    {ws : List (TokenKind × String)} (hname : isName x.name = true)
    (h : Shown ds (w :: nameWord x.name :: ws)) :
    ∃ t n ds' y, ds = t :: n :: ds' ∧ t.Shows w ∧ Shown ds' ws ∧
      Returns nextName i (t :: n :: (ds' ++ rest)) y (n :: (ds' ++ rest)) ∧
      y.recast .unplaced = x.recast .unplaced := by
  simp only [isName, Bool.and_eq_true, decide_eq_true_eq] at hname
  obtain ⟨t, ds', ht, hds', rfl⟩ := h.cons_inv
  obtain ⟨n, ds'', hn, hds'', rfl⟩ := hds'.cons_inv
  exact ⟨t, n, ds'', _, rfl, ht, hds'', .nextName hi (hn.kind.trans hname.2) t _,
    Ident.recast_unplaced hn.lexeme⟩

theorem typeDecl?_shown (hi : i.fault? = none) {d : TypeDecl} (hname : isName d.name.name = true)
    (hdoc : d.doc = none) (hbody : d.body.isCanonical = true) (h : Shown ds d.words)
    (hu : u.kind = .op .semicolon) :
    ∃ d', Returns typeDecl? i (ds ++ u :: rest) (some d') (u :: rest) ∧
      d'.recast .unplaced = d.recast .unplaced := by
  obtain ⟨t, n, ds', y, rfl, ht, hds', hnext, hy⟩ := opening_shown (u :: rest) hi hname h
  obtain ⟨k, bs, hk, hbs, rfl⟩ := hds'.cons_inv
  obtain ⟨body, hreturns, hbody'⟩ := typeBody?_shown rest hi hbody hbs hu y
  refine ⟨⟨t.leadDoc, y, body⟩, ?_, ?_⟩
  · refine (Returns.current t _).bind (hnext.bind ((Returns.advance hi n _).bind ?_))
    refine (Returns.require hk.kind _).bind ((Returns.advance hi k _).bind ?_)
    exact hreturns.bind (.pure _ _)
  · simp only [TypeDecl.recast, hbody', ht.leadDoc, hdoc, hy]

theorem subtype_shown (hi : i.fault? = none) {s : Subtype} (hs : s.isCanonical = true)
    (h : Shown ds s.words) (hu : u.kind = .op .semicolon) :
    ∃ s', Returns subtype i (ds ++ u :: rest) s' (u :: rest) ∧
      s'.recast .unplaced = s.recast .unplaced := by
  simp only [Subtype.isCanonical, Bool.and_eq_true, decide_eq_true_eq] at hs
  obtain ⟨⟨hname, hdoc⟩, hbase⟩ := hs
  obtain ⟨hspelled, -⟩ := Ident.spelled_of_isCanonical hbase
  obtain ⟨t, n, ds', y, rfl, ht, hds', hnext, hy⟩ := opening_shown (u :: rest) hi hname h
  obtain ⟨k, bs, hk, hbs, rfl⟩ := hds'.cons_inv
  obtain ⟨base, htail, hbase'⟩ := typeTail_shown rest hi hspelled hbs hu k
  refine ⟨⟨t.leadDoc, y, base⟩, ?_, ?_⟩
  · refine (Returns.current t _).bind (hnext.bind ((Returns.advance hi n _).bind ?_))
    exact (Returns.require hk.kind _).bind (htail.bind (.pure _ _))
  · simp only [Subtype.recast, hbase', ht.leadDoc, hdoc, hy]

/-! ## Routines -/

/-- The words of a result do not end it. -/
theorem endsResult_eq_false {x : Ident} (hx : x.Spelled)
    (hwords : x.words.all (!isModifier ·) = true) (h : Shown ds x.words) :
    ∀ d ∈ ds, endsResult d = false := by
  intro d hd
  obtain ⟨w, hw, hshows⟩ := h.exists_word hd
  have hmodifier := List.all_eq_true.1 hwords w hw
  have hsemicolon := hx.inside w hw
  rw [← hshows.kind] at hsemicolon
  rw [isModifier, ← hshows.kind, ← hshows.lexeme] at hmodifier
  unfold endsResult
  split
  all_goals simp_all

theorem cases_of_modifier {r : Routine} {w : TokenKind × String} (h : w ∈ r.modifierWords) :
    w = Keyword.pipelined.word ∨ w = Keyword.deterministic.word ∨ w = Keyword.resultCache.word := by
  have hmem {b : Bool} {v : TokenKind × String} (h : w ∈ if b then [v] else []) : w = v := by
    cases b with
    | false => cases h
    | true => exact List.mem_singleton.1 h
  simp only [Routine.modifierWords, List.mem_append] at h
  exact h.imp hmem (.imp hmem hmem)

theorem endsResult_of_modifier {r : Routine} (h : Shown ds r.modifierWords) :
    ∀ d ∈ ds, endsResult d = true := by
  intro d hd
  obtain ⟨w, hw, hshows⟩ := h.exists_word hd
  unfold endsResult
  rw [hshows.kind]
  rcases cases_of_modifier hw with rfl | rfl | rfl <;> rfl

/-- The result of a function, and the modifiers behind it. -/
theorem functionResult_shown (hi : i.fault? = none) {r : Routine} {x : Ident}
    (hx : x.isCanonical (fun ws => ws.all (!isModifier ·)) = true)
    (h : Shown ds (Keyword.return_.word :: x.words)) {ms : List DocToken}
    (hms : Shown ms r.modifierWords) (hu : u.kind = .op .semicolon) :
    ∃ x', Returns functionResult i (ds ++ (ms ++ u :: rest)) x' (ms ++ u :: rest) ∧
      x'.recast .unplaced = x.recast .unplaced := by
  obtain ⟨hspelled, hwords⟩ := Ident.spelled_of_isCanonical hx
  obtain ⟨k, xs, hk, hxs, rfl⟩ := h.cons_inv
  obtain ⟨v, vs, hv, hstop⟩ : ∃ v vs, ms ++ u :: rest = v :: vs ∧ endsResult v = true := by
    cases ms with
    | nil => exact ⟨u, rest, rfl, by unfold endsResult; rw [hu]⟩
    | cons m ms => exact ⟨m, ms ++ u :: rest, rfl, endsResult_of_modifier hms m (by simp)⟩
  rw [hv, List.cons_append]
  have htake := takeTo_stop vs hi (endsResult_eq_false hspelled hwords hxs) hstop
  refine ⟨.ofTokens (i.current (xs ++ v :: vs)).span.start (plainTokens xs), ?_,
    hxs.ofTokens hspelled _⟩
  refine (Returns.require hk.kind _).bind ((Returns.advance hi k _).bind ?_)
  exact returns_current_bind.2 (htake.bind (.pure _ _))

/-- The modifiers that are found are those that were spelled. -/
theorem any_modifier {r : Routine} (h : Shown ds r.modifierWords) :
    ds.any (·.kind = .keyword .pipelined) = r.pipelined ∧
      ds.any (·.kind = .keyword .deterministic) = r.deterministic ∧
      ds.any (·.kind = .keyword .resultCache) = r.resultCache := by
  have hany (k : Keyword) : ds.any (·.kind = .keyword k) =
      r.modifierWords.any (·.1 = .keyword k) := by
    rw [← h.word_eq, plainTokens, List.map_map, List.any_map]
    rfl
  simp only [hany, Routine.modifierWords]
  cases r.pipelined <;> cases r.deterministic <;> cases r.resultCache <;> decide

theorem routine_shown (hi : i.fault? = none) {r : Routine} (hr : r.isCanonical = true)
    (h : Shown ds r.words) (hu : u.kind = .op .semicolon) :
    ∃ r', Returns routine i (ds ++ u :: rest) r' (u :: rest) ∧
      r'.recast .unplaced = r.recast .unplaced := by
  simp only [Routine.isCanonical, Bool.and_eq_true, decide_eq_true_eq] at hr
  obtain ⟨⟨⟨hname, hdoc⟩, hparams⟩, hkind⟩ := hr
  obtain ⟨t, n, ds', y, rfl, ht, hds', hnext, hy⟩ := opening_shown (u :: rest) hi hname h
  obtain ⟨ls, ds'', hls, hds'', rfl⟩ := hds'.append_inv
  rw [List.append_assoc] at hnext
  cases hk : r.kind with
  | function =>
    simp only [hk] at hkind ht
    obtain ⟨x, hresult, hx⟩ := (Option.any_eq_true _ _).1 hkind
    rw [hresult] at hds''
    obtain ⟨rs, ms, hrs, hms, rfl⟩ := hds''.append_inv
    obtain ⟨x', hresult', hx'⟩ := functionResult_shown rest hi hx hrs hms hu
    obtain ⟨k, xs, hk', -, rfl⟩ := hrs.cons_inv
    obtain ⟨ls', hlist, hls'⟩ := fieldList?_shown (u := k) (xs ++ (ms ++ u :: rest)) hi hparams
      hls (by rw [hk'.kind]; simp [Keyword.word])
    have hinside : ∀ w ∈ r.modifierWords, w.1 ≠ .op .semicolon := by
      intro w hw
      rcases cases_of_modifier hw with rfl | rfl | rfl <;> simp [Keyword.word]
    have hclauses := takeTo_kind rest hi (hms.kind_ne hinside) hu
    obtain ⟨hpipelined, hdeterministic, hcache⟩ := any_modifier hms
    refine ⟨⟨t.leadDoc, y, ls', .function, some x', r.pipelined, r.deterministic, r.resultCache⟩,
      ?_, ?_⟩
    · rw [List.cons_append, List.cons_append, List.append_assoc, List.append_assoc]
      rw [List.append_assoc] at hnext
      refine (Returns.current t _).bind (hnext.bind ((Returns.advance hi n _).bind (hlist.bind ?_)))
      refine .else_ (by rw [ht.kind]; simp [Keyword.word]) ?_
      refine hresult'.bind (hclauses.bind (returns_pure.2 ⟨?_, rfl⟩))
      simp only [hpipelined, hdeterministic, hcache]
    · simp only [Routine.recast, hy, hls', ht.leadDoc, hdoc, hk, hresult, Option.map_some, hx']
  | procedure =>
    simp only [hk, Bool.and_eq_true, decide_eq_true_eq, Bool.not_eq_true'] at hkind ht
    obtain ⟨⟨⟨hresult, hpipelined⟩, hdeterministic⟩, hcache⟩ := hkind
    have hnil : Shown ds'' [] := by
      simpa [hresult, returnWords, Routine.modifierWords, hpipelined, hdeterministic, hcache]
        using hds''
    cases hnil
    obtain ⟨ls', hlist, hls'⟩ := fieldList?_shown (u := u) rest hi hparams hls (by simp [hu])
    have hskip := skipTo_here rest hi hu
    refine ⟨⟨t.leadDoc, y, ls', .procedure, none, false, false, false⟩, ?_, ?_⟩
    · rw [List.append_nil]
      refine (Returns.current t _).bind (hnext.bind ((Returns.advance hi n _).bind (hlist.bind ?_)))
      exact .then_ ht.kind (hskip.bind (.pure _ _))
    · simp only [Routine.recast, hpipelined, hdeterministic, hcache, hy, hls', ht.leadDoc, hdoc, hk,
        hresult, Option.map_none]

/-! ## Cursors -/

theorem cursorResult?_shown (hi : i.fault? = none) {x? : Option Ident}
    (hx : x?.all (·.isCanonical fun ws => ws.all (·.1 ≠ .keyword .is)) = true)
    (h : Shown ds (returnWords x?)) (hu : u.kind = .keyword .is ∨ u.kind = .op .semicolon) :
    ∃ x?', Returns cursorResult? i (ds ++ u :: rest) x?' (u :: rest) ∧
      x?'.map (·.recast .unplaced) = x?.map (·.recast .unplaced) := by
  cases x? with
  | none =>
    cases h
    have hreturn : ¬ decide (u.kind = .keyword .return_) = true := by
      rcases hu with hu | hu <;> simp [hu]
    exact ⟨none, (Returns.isAt _ u _).bind (.else_ hreturn (.pure _ _)), rfl⟩
  | some x =>
    obtain ⟨hspelled, hwords⟩ := Ident.spelled_of_isCanonical hx
    obtain ⟨k, xs, hk, hxs, rfl⟩ := Shown.cons_inv h
    have his : ∀ d ∈ xs, d.kind ≠ .keyword .is := hxs.kind_ne (by simpa using hwords)
    have hsemicolon := hxs.kind_ne hspelled.inside
    have htake : Returns (takeTo fun t => t.kind = .keyword .is || t.kind = .op .semicolon) i
        (xs ++ u :: rest) xs (u :: rest) := by
      refine takeTo_stop rest hi (fun d hd => ?_) (by simpa using hu)
      simp [his d hd, hsemicolon d hd]
    refine ⟨some (.ofTokens (i.current (xs ++ u :: rest)).span.start (plainTokens xs)), ?_,
      congrArg some (hxs.ofTokens hspelled _)⟩
    refine (Returns.isAt _ k _).bind (.then_ (decide_eq_true hk.kind) ?_)
    exact (Returns.advance hi k _).bind (returns_current_bind.2 (htake.bind (.pure _ _)))

/-- The signature of a cursor, before its query `q`. -/
theorem cursor_shown (hi : i.fault? = none) {c : Cursor} (hc : c.isCanonical = true)
    (h : Shown ds c.words) (hu : u.kind = .keyword .is ∨ u.kind = .op .semicolon) {q : Sql}
    {left : List DocToken} (hquery : Returns cursorQuery i (u :: rest) q left)
    (hq : q.text = c.sql.text) :
    ∃ c', Returns cursor i (ds ++ u :: rest) c' left ∧
      c'.recast .unplaced = c.recast .unplaced := by
  simp only [Cursor.isCanonical, Bool.and_eq_true, decide_eq_true_eq] at hc
  obtain ⟨⟨⟨⟨hname, hdoc⟩, hparams⟩, hresult⟩, -⟩ := hc
  obtain ⟨t, n, ds', y, rfl, ht, hds', hnext, hy⟩ := opening_shown (u :: rest) hi hname h
  obtain ⟨ls, rs, hls, hrs, rfl⟩ := hds'.append_inv
  obtain ⟨x?, hresult', hx⟩ := cursorResult?_shown rest hi hresult hrs hu
  -- no parenthesis follows the parameters
  obtain ⟨v, vs, hv, hopen⟩ : ∃ v vs, rs ++ u :: rest = v :: vs ∧ v.kind ≠ .op .openParen := by
    cases hrs' : c.result with
    | none =>
      rw [hrs'] at hrs
      cases hrs
      exact ⟨u, rest, rfl, by rcases hu with hu | hu <;> simp [hu]⟩
    | some x =>
      rw [hrs'] at hrs
      obtain ⟨k, xs, hk, -, rfl⟩ := Shown.cons_inv hrs
      exact ⟨k, xs ++ u :: rest, rfl, by rw [hk.kind]; simp [Keyword.word]⟩
  obtain ⟨ls', hlist, hls'⟩ := fieldList?_shown vs hi hparams hls hopen
  refine ⟨⟨t.leadDoc, y, ls', x?, q⟩, ?_, ?_⟩
  · rw [List.append_assoc, hv] at hnext
    rw [hv] at hresult'
    rw [List.cons_append, List.cons_append, List.append_assoc, hv]
    refine (Returns.current t _).bind (hnext.bind ((Returns.advance hi n _).bind ?_))
    exact hlist.bind (hresult'.bind (hquery.bind (.pure _ _)))
  · have hsql : q.recast .unplaced = c.sql.recast .unplaced := by
      simp only [Sql.recast, hq]
      rfl
    simp only [Cursor.recast, hsql, hy, hls', hx, ht.leadDoc, hdoc]

theorem cursorQuery_empty (hu : u.kind = .op .semicolon) :
    Returns cursorQuery i (u :: rest) ⟨u.span.start, ""⟩ (u :: rest) :=
  (Returns.current u _).bind (.then_ hu (.pure _ _))

/-- The query of a cursor, from the token behind `is` to the semicolon. -/
theorem cursorQuery_slice (hi : i.fault? = none) (hu : u.kind = .keyword .is) {q : List DocToken}
    (hq : ∀ d ∈ q, d.kind ≠ .op .semicolon) {s : DocToken} (hs : s.kind = .op .semicolon) :
    Returns cursorQuery i (u :: (q ++ s :: rest))
      ⟨(i.current (q ++ s :: rest)).span.start, String.ofList
        (Text.slice i.text (i.current (q ++ s :: rest)).span.start s.span.start)⟩ (s :: rest) := by
  have hskip := skipTo_here (q ++ s :: rest) hi hu
  have hskip' := skipTo_kind rest hi hq hs
  refine (Returns.current u _).bind (.else_ (by simp [hu]) (hskip.bind ?_))
  refine (Returns.advance hi u _).bind (returns_current_bind.2 (hskip'.bind ?_))
  exact (Returns.current s _).bind (returns_input_bind.2 (.pure _ _))

/-! ## Declarations -/

/-- A declaration without a query, before its semicolon.  Behind an exception its
    last word is left. -/
theorem item_shown (hi : i.fault? = none) {item : Item} (hitem : item.isCanonical = true)
    (hquery : item.query = "") (h : Shown ds item.words) (hu : u.kind = .op .semicolon) :
    ∃ item' left, Returns item? i (ds ++ u :: rest) (some item') (left ++ u :: rest) ∧
      item'.recast .unplaced = item.recast .unplaced ∧ (left = [] ∨ ∃ d, left = [d]) := by
  cases item with
  | field f =>
    obtain ⟨f', left, hreturns, hf', hleft⟩ := variableField_shown rest hi hitem h hu
    obtain ⟨hname, -⟩ := Field.cases_of_isDeclared hitem
    simp only [isName, Bool.and_eq_true, decide_eq_true_eq] at hname
    obtain ⟨n, ds', hn, -, rfl⟩ := Shown.cons_inv h
    refine ⟨.field f', left, (Returns.current n _).bind ?_, congrArg Item.field hf', hleft⟩
    rw [show n.kind = .ident from hn.kind.trans hname.2]
    exact hreturns.bind (.pure _ _)
  | subtype s =>
    obtain ⟨s', hreturns, hs'⟩ := subtype_shown rest hi hitem h hu
    obtain ⟨t, ds', ht, -, rfl⟩ := Shown.cons_inv h
    refine ⟨.subtype s', [], (Returns.current t _).bind ?_, congrArg Item.subtype hs', .inl rfl⟩
    rw [show t.kind = .keyword .subtype from ht.kind]
    exact hreturns.bind (.pure _ _)
  | routine r =>
    obtain ⟨r', hreturns, hr'⟩ := routine_shown rest hi hitem h hu
    obtain ⟨t, ds', ht, -, rfl⟩ := Shown.cons_inv h
    refine ⟨.routine r', [], (Returns.current t _).bind ?_, congrArg Item.routine hr', .inl rfl⟩
    cases hk : r.kind with
    | function =>
      rw [hk] at ht
      rw [show t.kind = .keyword .function from ht.kind]
      exact hreturns.bind (.pure _ _)
    | procedure =>
      rw [hk] at ht
      rw [show t.kind = .keyword .procedure from ht.kind]
      exact hreturns.bind (.pure _ _)
  | cursor c =>
    obtain ⟨c', hreturns, hc'⟩ := cursor_shown rest hi hitem h (.inr hu)
      (cursorQuery_empty rest hu) hquery.symm
    obtain ⟨t, ds', ht, -, rfl⟩ := Shown.cons_inv h
    refine ⟨.cursor c', [], (Returns.current t _).bind ?_, congrArg Item.cursor hc', .inl rfl⟩
    rw [show t.kind = .keyword .cursor from ht.kind]
    exact hreturns.bind (.pure _ _)
  | type d =>
    simp only [Item.isCanonical, Bool.and_eq_true, decide_eq_true_eq] at hitem
    obtain ⟨⟨hname, hdoc⟩, hbody⟩ := hitem
    obtain ⟨d', hreturns, hd'⟩ := typeDecl?_shown rest hi hname hdoc hbody h hu
    obtain ⟨t, ds', ht, -, rfl⟩ := Shown.cons_inv h
    refine ⟨.type d', [], (Returns.current t _).bind ?_, congrArg Item.type hd', .inl rfl⟩
    rw [show t.kind = .keyword .type from ht.kind]
    exact hreturns.bind (.pure _ _)

/-- A cursor with a query, from the word `is` to the semicolon. -/
theorem item_shown_query (hi : i.fault? = none) {c : Cursor} (hc : c.isCanonical = true)
    (h : Shown ds c.words) (hu : u.kind = .keyword .is) {q : List DocToken}
    (hq : ∀ d ∈ q, d.kind ≠ .op .semicolon) {s : DocToken} (hs : s.kind = .op .semicolon)
    (hslice : Text.slice i.text (i.current (q ++ s :: rest)).span.start s.span.start =
      c.sql.text.toList) :
    ∃ item', Returns item? i (ds ++ u :: (q ++ s :: rest)) (some item') (s :: rest) ∧
      item'.recast .unplaced = (Item.cursor c).recast .unplaced := by
  obtain ⟨c', hreturns, hc'⟩ := cursor_shown _ hi hc h (.inl hu)
    (cursorQuery_slice rest hi hu hq hs) (by rw [hslice, String.ofList_toList])
  obtain ⟨t, ds', ht, -, rfl⟩ := Shown.cons_inv h
  refine ⟨.cursor c', (Returns.current t _).bind ?_, congrArg Item.cursor hc'⟩
  rw [show t.kind = .keyword .cursor from ht.kind]
  exact hreturns.bind (.pure _ _)

end Parser

end PackageDoc
