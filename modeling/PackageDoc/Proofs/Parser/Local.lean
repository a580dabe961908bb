/-
  What parsers do not look at.

  A parser that stops before the end of an input has not seen that end: on an
  input that goes on behind it, it gives the same result and leaves what it left,
  with the further tokens behind; and what it gives there without coming to the
  further tokens, it gives here (`Local`).  There is a rule for each way of
  putting parsers together, and the productions of a package follow one by one.
-/
import PackageDoc.Proofs.Parser.Returns
import PackageDoc.Proofs.Parser.Source

namespace PackageDoc

open Text

/-- The texts between the tokens of `i` stand at the same places of `j`. -/
def Input.Shares (i j : Input) : Prop :=
  ∀ ts ts', ts <:+ i.tokens → ts' <:+ ts → ts' ≠ [] →
    slice j.text (i.current ts).span.start (i.current ts').span.start =
      slice i.text (i.current ts).span.start (i.current ts').span.start

/-- The input `j` is the input `i`, with `more` tokens behind those of `i`. -/
structure Input.GoesOn (i j : Input) (more : List DocToken) : Prop where
  scanned : i.Scanned
  text : ∃ back, j.text = i.text ++ back
  tokens : j.tokens = i.tokens ++ more

/-- The text between two tokens does not depend on what follows. -/
theorem Input.GoesOn.shares {i j : Input} {more : List DocToken} (h : i.GoesOn j more) :
    i.Shares j := by
  intro ts ts' hts hts' hne
  obtain ⟨back, hback⟩ := h.text
  by_cases heq : ts' = ts
  · rw [heq, slice_self, slice_self]
  · obtain ⟨front, body, back', htext, -, hstart, hstop⟩ :=
      h.scanned.piece_between hts hts' heq fun hnil => absurd hnil hne
    rw [hstart, hstop, hback, htext, List.append_assoc _ back' back, slice_append, slice_append]

namespace Parser

variable {α β σ : Type} {i j : Input} {more : List DocToken}

/-- Where the parser stops before the end of `i`, it does the same on `j`, and
    leaves the tokens that follow as well. -/
def Local (i j : Input) (more : List DocToken) (p : Parser α) : Prop :=
  ∀ ts a rest, ts <:+ i.tokens → rest ≠ [] →
    (Returns p i ts a rest ↔ Returns p j (ts ++ more) a (rest ++ more))

theorem ne_nil_of_suffix {ts rest : List DocToken} (h : rest <:+ ts) (hne : rest ≠ []) :
    ts ≠ [] := by
  rintro rfl
  exact hne (List.suffix_nil.1 h)

theorem current_append {ts : List DocToken} (h : ts ≠ []) :
    j.current (ts ++ more) = i.current ts := by
  cases ts with
  | nil => exact absurd rfl h
  | cons t ts => rfl

theorem reaches_append {ts rest : List DocToken} (h : rest ≠ []) :
    Reaches j ts (rest ++ more) :=
  fun _ hnil => absurd (List.append_eq_nil_iff.1 hnil).1 h

/-- A place of the longer input that lies before the further tokens. -/
theorem eq_append_more {ts mid rest : List DocToken} (h : mid <:+ ts ++ more)
    (h' : rest ++ more <:+ mid) : ∃ mid', mid = mid' ++ more := by
  have hmore : more <:+ mid := (List.suffix_append rest more).trans h'
  obtain ⟨mid', rfl⟩ := hmore
  exact ⟨mid', rfl⟩

/-- A split that stops at a token does not look behind it: on more tokens it stops
    at the same token, or only behind all the tokens that there were. -/
def SplitsLocally (f : List DocToken → List DocToken × List DocToken) : Prop :=
  ∀ ts more, f (ts ++ more) = ((f ts).1, (f ts).2 ++ more) ∨
    (f ts).2 = [] ∧ (f (ts ++ more)).2 <:+ more

theorem splitsLocally_takeWhile (p : DocToken → Bool) :
    SplitsLocally fun ts => (ts.takeWhile p, ts.dropWhile p) := by
  intro ts more
  induction ts with
  | nil => exact .inr ⟨rfl, List.dropWhile_suffix p⟩
  | cons t ts ih =>
    cases ht : p t with
    | true => simpa [List.takeWhile_cons, List.dropWhile_cons, ht] using ih
    | false => exact .inl (by simp [ht])

namespace Local

variable {p q : Parser α}

/-! ## Rules -/

theorem pure (a : α) : Local i j more (Pure.pure a) := by
  intro ts b rest hts hne
  rw [returns_pure, returns_pure, List.append_left_inj]

theorem bind {f : α → Parser β} (hp : Local i j more p) (hf : ∀ a, Local i j more (f a)) :
    Local i j more (p >>= f) := by
  intro ts b rest hts hne
  rw [returns_bind, returns_bind]
  constructor
  · rintro ⟨a, mid, ha, hb⟩
    have hmid := ne_nil_of_suffix hb.suffix hne
    have hsuffix := ha.suffix.trans hts
    exact ⟨a, mid ++ more, (hp ts a mid hts hmid).1 ha, (hf a mid b rest hsuffix hne).1 hb⟩
  · rintro ⟨a, mid, ha, hb⟩
    obtain ⟨mid, rfl⟩ := eq_append_more ha.suffix hb.suffix
    have hmid : mid ≠ [] := ne_nil_of_suffix (List.suffix_append_self_iff.1 hb.suffix) hne
    have ha := (hp ts a mid hts hmid).2 ha
    exact ⟨a, mid, ha, (hf a mid b rest (ha.suffix.trans hts) hne).2 hb⟩

theorem ite {c : Prop} [Decidable c] (hp : Local i j more p) (hq : Local i j more q) :
    Local i j more (if c then p else q) := by
  split
  · exact hp
  · exact hq

theorem when {c : Prop} [Decidable c] {p : Parser Unit} {f : Unit → Parser α}
    (hp : Local i j more p) (hf : Local i j more (f ())) :
    Local i j more (if c then p >>= f else f ()) :=
  ite (bind hp fun _ => hf) hf

theorem fail (fault : ParseFault) : Local i j more (Parser.fail fault : Parser α) :=
  fun _ _ _ _ _ => iff_of_false not_returns_fail not_returns_fail

/-! ## Primitives -/

theorem current : Local i j more current := by
  intro ts t rest hts hne
  rw [returns_current, returns_current, List.append_left_inj]
  refine and_congr_left fun hrest => ?_
  rw [current_append (i := i) (hrest ▸ hne)]

theorem atEnd : Local i j more atEnd := by
  intro ts b rest hts hne
  rw [returns_atEnd, returns_atEnd, List.append_left_inj]
  refine and_congr_left fun hrest => ?_
  have hts : ts ≠ [] := hrest ▸ hne
  rw [List.isEmpty_eq_false_iff.2 hts, List.isEmpty_eq_false_iff.2 (by simp [hts])]

theorem log (e : Event) : Local i j more (Parser.log e) := by
  intro ts u rest hts hne
  rw [returns_log, returns_log, List.append_left_inj]

theorem advance : Local i j more advance := by
  intro ts u rest hts hne
  rw [returns_advance, returns_advance]
  constructor
  · rintro ⟨rfl, -⟩
    cases ts with
    | nil => exact absurd rfl hne
    | cons t ts => exact ⟨rfl, reaches_append hne⟩
  · rintro ⟨hrest, -⟩
    cases ts with
    | nil =>
      -- the move would go behind all the tokens that there were
      have hlength := congrArg List.length hrest
      have := List.length_pos_iff.2 hne
      simp only [List.nil_append, List.length_append, List.length_tail] at hlength
      omega
    | cons t ts =>
      obtain rfl : rest = ts := List.append_cancel_right hrest
      exact ⟨rfl, fun _ hnil => absurd hnil hne⟩

theorem passTo {f : List DocToken → List DocToken × List DocToken}
    {hf : ∀ ts, (f ts).1 ++ (f ts).2 = ts} (h : SplitsLocally f) :
    Local i j more (Parser.passTo f hf) := by
  intro ts passed rest hts hne
  rw [returns_passTo, returns_passTo]
  constructor
  · rintro ⟨rfl, rfl, -⟩
    rcases h ts more with hmore | ⟨hnil, -⟩
    · rw [hmore]
      exact ⟨rfl, rfl, reaches_append hne⟩
    · exact absurd hnil hne
  · rintro ⟨rfl, hrest, -⟩
    rcases h ts more with hmore | ⟨-, hbehind⟩
    · rw [hmore] at hrest ⊢
      obtain rfl := List.append_cancel_right hrest
      exact ⟨rfl, rfl, fun _ hnil => absurd hnil hne⟩
    · have hlength := (hrest ▸ hbehind).length_le
      have := List.length_pos_iff.2 hne
      simp only [List.length_append] at hlength
      omega

theorem takeTo (stop : DocToken → Bool) : Local i j more (Parser.takeTo stop) :=
  passTo (splitsLocally_takeWhile _)

theorem skipTo (kind : TokenKind) : Local i j more (Parser.skipTo kind) :=
  bind (takeTo _) fun _ => pure ()

theorem isAt (kind : TokenKind) : Local i j more (Parser.isAt kind) :=
  bind current fun _ => pure _

theorem require (kind : TokenKind) : Local i j more (Parser.require kind) :=
  bind current fun _ => ite (pure _) (fail _)

theorem name : Local i j more name :=
  bind (require _) fun _ => bind current fun _ => pure _

theorem nextName : Local i j more nextName := bind advance fun _ => name

/-- A loop that has a result before the end of the input.  The induction is on
    what is left to be read. -/
theorem iterate {step : σ → Parser (σ ⊕ α)} {finish : σ → α}
    (hstep : ∀ s, Local i j more (step s)) (s : σ) :
    Local i j more (Parser.iterate step finish s) := by
  intro ts a rest hts hne
  generalize hn : ts.length = n
  induction n using Nat.strongRecOn generalizing s ts with
  | _ n ih =>
    cases ts with
    | nil =>
      constructor
      · intro h
        obtain ⟨-, rfl⟩ := returns_iterate_nil.1 h
        exact absurd rfl hne
      · intro h
        exact absurd rfl (ne_nil_of_suffix (List.suffix_append_self_iff.1 h.suffix) hne)
    | cons t ts =>
      have hsuffix : ts <:+ i.tokens := (List.suffix_cons t ts).trans hts
      -- what comes behind a round, with the loop again or with its result
      have hbehind (x : σ ⊕ α) (mid : List DocToken) (hmid : mid <:+ ts) :
          Returns (Sum.elim (Parser.iterate step finish) Pure.pure x) i mid a rest ↔
            Returns (Sum.elim (Parser.iterate step finish) Pure.pure x) j (mid ++ more) a
              (rest ++ more) := by
        have hlength := hmid.length_le
        simp only [List.length_cons] at hn
        cases x with
        | inl s' => exact ih mid.length (by omega) s' mid (hmid.trans hsuffix) rfl
        | inr b => exact pure b mid a rest (hmid.trans hsuffix) hne
      rw [List.cons_append, returns_iterate_cons, returns_iterate_cons]
      constructor
      · rintro ⟨-, x, mid, hround, hmore⟩
        have hmid : mid ≠ [] := ne_nil_of_suffix hmore.suffix hne
        have hround' := (hstep s ts x mid hsuffix hmid).1 hround
        refine ⟨?_, x, mid ++ more, hround', (hbehind x mid hround.suffix).1 hmore⟩
        exact reaches_append (ne_nil_of_suffix hround.suffix hmid)
      · rintro ⟨-, x, mid, hround, hmore⟩
        obtain ⟨mid, rfl⟩ := eq_append_more hround.suffix hmore.suffix
        have hmid : mid ≠ [] := ne_nil_of_suffix (List.suffix_append_self_iff.1 hmore.suffix) hne
        have hround := (hstep s ts x mid hsuffix hmid).2 hround
        refine ⟨?_, x, mid, hround, (hbehind x mid hround.suffix).2 hmore⟩
        exact fun _ hnil => absurd hnil (ne_nil_of_suffix hround.suffix hmid)

end Local

/-! ## Splits -/

theorem splitsLocally_splitNested (stop : TokenKind → Bool) (depth : Nat) :
    SplitsLocally (splitNested stop depth) := by
  intro ts more
  induction ts generalizing depth with
  | nil => exact .inr ⟨rfl, ⟨_, splitNested_append stop depth more⟩⟩
  | cons t ts ih =>
    simp only [List.cons_append, splitNested]
    split
    · exact .inl rfl
    · rcases ih (depthAfter depth t.kind) with hmore | hnil
      · exact .inl (by simp only [hmore])
      · exact .inr hnil

theorem splitsLocally_splitDirective (closes : DocToken → Bool) :
    SplitsLocally (splitDirective closes) := by
  intro ts more
  induction ts with
  | nil => exact .inr ⟨rfl, ⟨_, splitDirective_append closes more⟩⟩
  | cons t ts ih =>
    by_cases hne : ts = []
    · -- the marker may be completed by the first of the further tokens
      subst hne
      refine .inr ⟨by simp [splitDirective], ?_⟩
      simp only [List.cons_append, List.nil_append, splitDirective]
      split
      · exact List.suffix_refl more
      · exact ⟨_, splitDirective_append closes more⟩
    · have hhead : (ts ++ more).head? = ts.head? := List.head?_append_of_ne_nil _ hne
      simp only [List.cons_append, splitDirective, hhead]
      split
      · exact .inl rfl
      · rcases ih with hmore | hnil
        · exact .inl (by simp only [hmore])
        · exact .inr hnil

theorem splitsLocally_splitBody (depth : Nat) : SplitsLocally (splitBody depth) := by
  intro ts more
  -- the split of what follows, with some tokens in front of what it passes over
  have hcons (front : List DocToken) {x y : List DocToken × List DocToken}
      (h : y = (x.1, x.2 ++ more) ∨ x.2 = [] ∧ y.2 <:+ more) :
      (front ++ y.1, y.2) = (front ++ x.1, x.2 ++ more) ∨ x.2 = [] ∧ y.2 <:+ more :=
    h.imp_left fun h => by rw [h]
  fun_induction splitBody depth ts with
  | case1 depth => exact .inr ⟨rfl, ⟨_, splitBody_append depth more⟩⟩
  | case2 depth t ts hopen body rest hsplit ih =>
    rw [hsplit] at ih
    simp only [List.cons_append, splitBody.eq_def depth (_ :: _), if_pos hopen]
    exact hcons [t] ih
  | case3 depth t hopen hend =>
    -- the last token is passed over, whatever follows it
    refine .inr ⟨rfl, ?_⟩
    rw [List.cons_append, List.nil_append, splitBody.eq_def]
    simp only [if_neg hopen, if_pos hend]
    cases more with
    | nil => exact List.suffix_refl []
    | cons u us =>
      have hrest (depth : Nat) : (splitBody depth us).2 <:+ u :: us :=
        List.IsSuffix.trans ⟨_, splitBody_append depth us⟩ (List.suffix_cons u us)
      dsimp only
      split_ifs
      · exact hrest depth
      · exact List.suffix_refl _
      · exact hrest (depth - 1)
      · exact ⟨_, splitBody_append (depth - 1) (u :: us)⟩
  | case4 depth t hopen hend u us hcloses body rest hsplit ih =>
    rw [hsplit] at ih
    rw [List.cons_append, List.cons_append, splitBody, if_neg hopen, if_pos hend]
    simp only [if_pos hcloses]
    exact hcons [t, u] ih
  | case5 depth t hopen hend u us hcloses hdepth =>
    rw [List.cons_append, List.cons_append, splitBody, if_neg hopen, if_pos hend]
    refine .inl ?_
    simp only [if_neg hcloses, if_pos hdepth]
  | case6 depth t hopen hend u us hcloses hdepth hcase body rest hsplit ih =>
    rw [hsplit] at ih
    rw [List.cons_append, List.cons_append, splitBody, if_neg hopen, if_pos hend]
    simp only [if_neg hcloses, if_neg hdepth, if_pos hcase]
    exact hcons [t, u] ih
  | case7 depth t hopen hend u us hcloses hdepth hcase body rest hsplit ih =>
    rw [hsplit] at ih
    rw [List.cons_append, List.cons_append, splitBody, if_neg hopen, if_pos hend]
    simp only [if_neg hcloses, if_neg hdepth, if_neg hcase]
    exact hcons [t] ih
  | case8 depth t ts hopen hend body rest hsplit ih =>
    rw [hsplit] at ih
    simp only [List.cons_append, splitBody.eq_def depth (_ :: _), if_neg hopen, if_neg hend]
    exact hcons [t] ih

theorem splitsLocally_splitPackage (create? : Option DocToken) :
    SplitsLocally (splitPackage create?) := by
  intro ts more
  induction ts generalizing create? with
  | nil => exact .inr ⟨rfl, ⟨_, splitPackage_append create? more⟩⟩
  | cons t ts ih =>
    simp only [List.cons_append, splitPackage]
    split
    · exact .inl rfl
    · rcases ih (pendingCreate create? t) with hmore | hnil
      · exact .inl (by simp only [hmore])
      · exact .inr hnil

/-! ## Productions -/

namespace Local

theorem takeNested (stop : TokenKind → Bool) : Local i j more (Parser.takeNested stop) :=
  passTo (splitsLocally_splitNested stop 0)

theorem variableField : Local i j more variableField := by
  refine bind current fun t => bind name fun x => bind advance fun _ => bind (isAt _) fun _ => ?_
  refine ite (pure _) (bind (isAt _) fun _ => when advance ?_)
  exact bind current fun _ => bind (takeTo _) fun _ => pure _

theorem passMode : Local i j more passMode := by
  refine bind (isAt _) fun _ => ite (bind advance fun _ => pure _) ?_
  refine bind (isAt _) fun _ => ite ?_ (pure _)
  exact bind advance fun _ => bind (isAt _) fun _ => ite (bind advance fun _ => pure _) (pure _)

theorem paramDefault : Local i j more paramDefault := by
  refine bind current fun t => ite ?_ (pure _)
  exact bind advance fun _ => bind (takeNested _) fun _ => bind atEnd fun _ =>
    when advance (pure _)

theorem param : Local i j more param := by
  refine bind current fun t => bind advance fun _ => bind passMode fun _ => bind current fun _ => ?_
  refine when advance (bind current fun _ => when (require _) ?_)
  exact bind (takeNested _) fun _ => bind paramDefault fun _ => pure _

theorem fieldStep (opening : Nat) (done : List Field) :
    Local i j more (fieldStep opening done) :=
  bind param fun _ => bind current fun _ => ite (pure _) (bind (require _) fun _ => pure _)

theorem fieldList : Local i j more fieldList :=
  bind current fun _ => bind (iterate (fieldStep _) _) fun _ => bind advance fun _ => pure _

theorem fieldList? : Local i j more fieldList? :=
  bind (isAt _) fun _ => ite (bind fieldList fun _ => pure _) (pure _)

theorem group : Local i j more group := by
  refine bind current fun _ => bind advance fun _ => bind (takeNested _) fun _ => ?_
  exact bind atEnd fun _ => ite (pure _) (bind current fun _ => pure _)

theorem typeTail : Local i j more typeTail :=
  bind advance fun _ => bind current fun _ => bind (takeTo _) fun _ => pure _

theorem functionResult : Local i j more functionResult :=
  bind (require _) fun _ => bind advance fun _ => bind current fun _ => bind (takeTo _) fun _ =>
    pure _

theorem routine : Local i j more routine := by
  refine bind current fun _ => bind nextName fun _ => bind advance fun _ => bind fieldList? fun _ => ?_
  refine ite (bind (skipTo _) fun _ => pure _) ?_
  exact bind functionResult fun _ => bind (takeTo _) fun _ => pure _

theorem cursorResult? : Local i j more cursorResult? := by
  refine bind (isAt _) fun _ => ite ?_ (pure _)
  exact bind advance fun _ => bind current fun _ => bind (takeTo _) fun _ => pure _

/-- The query of a cursor is a text between two tokens. -/
theorem cursorQuery (h : i.Shares j) : Local i j more cursorQuery := by
  refine bind current fun _ => ite (pure _) (bind (skipTo _) fun _ => bind advance fun _ => ?_)
  intro ts sql rest hts hne
  constructor
  · intro hreturns
    have hnil := ne_nil_of_suffix hreturns.suffix hne
    obtain ⟨_, mid, hskip, hreturns⟩ := returns_bind.1 (returns_current_bind.1 hreturns)
    rw [returns_current_bind, returns_input_bind] at hreturns
    obtain ⟨rfl, rfl⟩ := returns_pure.1 hreturns
    rw [returns_current_bind, current_append (i := i) hnil]
    refine returns_bind.2 ⟨_, _, (skipTo _ _ _ _ hts hne).1 hskip, ?_⟩
    rw [returns_current_bind, returns_input_bind, current_append (i := i) hne]
    exact returns_pure.2 ⟨by rw [h _ _ hts hskip.suffix hne], rfl⟩
  · intro hreturns
    have hnil := ne_nil_of_suffix (List.suffix_append_self_iff.1 hreturns.suffix) hne
    rw [returns_current_bind, current_append (i := i) hnil] at hreturns
    obtain ⟨_, mid, hskip, hreturns⟩ := returns_bind.1 hreturns
    rw [returns_current_bind, returns_input_bind] at hreturns
    obtain ⟨rfl, rfl⟩ := returns_pure.1 hreturns
    have hskip := (skipTo _ _ _ _ hts hne).2 hskip
    refine returns_current_bind.2 (returns_bind.2 ⟨_, _, hskip, ?_⟩)
    rw [returns_current_bind, returns_input_bind, current_append (i := i) hne]
    exact returns_pure.2 ⟨by rw [h _ _ hts hskip.suffix hne], rfl⟩

theorem cursor (h : i.Shares j) : Local i j more cursor := by
  refine bind current fun _ => bind nextName fun _ => bind advance fun _ => bind fieldList? fun _ => ?_
  exact bind cursorResult? fun _ => bind (cursorQuery h) fun _ => pure _

theorem arrayBound? : Local i j more arrayBound? := by
  refine bind current fun _ => ite ?_ (pure _)
  exact bind group fun _ => bind current fun _ => pure _

theorem tableType : Local i j more tableType :=
  bind advance fun _ => bind (skipTo _) fun _ => bind typeTail fun _ => pure _

theorem arrayType : Local i j more arrayType :=
  bind advance fun _ => bind arrayBound? fun _ => bind (skipTo _) fun _ => bind typeTail fun _ =>
    pure _

theorem recordType : Local i j more recordType :=
  bind advance fun _ => bind (require _) fun _ => bind fieldList fun _ => pure _

theorem refCursorType : Local i j more refCursorType := by
  refine bind advance fun _ => bind (require _) fun _ => bind advance fun _ => bind (isAt _) fun _ => ?_
  exact ite (pure _) (bind (require _) fun _ => bind typeTail fun _ => pure _)

theorem typeBody? (x : Ident) : Local i j more (typeBody? x) := by
  refine bind current fun t => ?_
  split
  · exact bind tableType fun _ => pure _
  · exact bind arrayType fun _ => pure _
  · exact bind recordType fun _ => pure _
  · exact bind refCursorType fun _ => pure _
  · exact bind (log _) fun _ => bind (skipTo _) fun _ => pure _

theorem typeDecl? : Local i j more typeDecl? := by
  refine bind current fun _ => bind nextName fun _ => bind advance fun _ => bind (require _) fun _ => ?_
  exact bind advance fun _ => bind (typeBody? _) fun _ => pure _

theorem subtype : Local i j more subtype :=
  bind current fun _ => bind nextName fun _ => bind advance fun _ => bind (require _) fun _ =>
    bind typeTail fun _ => pure _

theorem skipDirective (closes : DocToken → Bool) : Local i j more (skipDirective closes) :=
  bind (passTo (splitsLocally_splitDirective closes)) fun _ => pure _

theorem directive : Local i j more directive := by
  refine bind advance fun _ => bind (isAt _) fun _ => when advance (bind current fun _ => ?_)
  exact ite (skipDirective _) (ite (skipDirective _) (pure _))

theorem packageBody : Local i j more packageBody :=
  bind current fun _ => bind advance fun _ =>
    bind (passTo (splitsLocally_splitBody 1)) fun _ => bind current fun _ => log _

theorem item? (h : i.Shares j) : Local i j more item? := by
  refine bind current fun t => ?_
  split
  · exact bind directive fun _ => pure _
  · exact bind variableField fun _ => pure _
  · exact bind (cursor h) fun _ => pure _
  · exact bind routine fun _ => pure _
  · exact bind routine fun _ => pure _
  · exact bind (skipTo _) fun _ => pure _
  · exact bind typeDecl? fun _ => pure _
  · exact bind subtype fun _ => pure _
  · exact pure _
  · exact pure _
  · exact bind (log _) fun _ => bind (skipTo _) fun _ => pure _

theorem packageEnd (x : Ident) : Local i j more (packageEnd x) := by
  refine bind current fun _ => bind advance fun _ => bind current fun _ => ?_
  exact ite (ite (pure _) (fail _)) (pure _)

theorem itemStep (h : i.Shares j) (x : Ident) (found : Found) :
    Local i j more (itemStep x found) := by
  refine bind current fun _ => ite (bind (packageEnd x) fun _ => pure _) ?_
  exact bind (item? h) fun _ => pure _

theorem items (h : i.Shares j) (x : Ident) : Local i j more (items x) :=
  bind current fun _ => bind (iterate (itemStep h x) _) fun _ => pure _

theorem packageName : Local i j more packageName := by
  refine bind name fun _ => bind advance fun _ => bind (isAt _) fun _ => ite ?_ ?_
  · exact bind nextName fun _ => bind advance fun _ => bind (takeTo _) fun _ => pure _
  · exact bind (takeTo _) fun _ => pure _

/-- **A package that is closed does not depend on what follows it.** -/
theorem package? (h : i.Shares j) (create : DocToken) : Local i j more (package? create) := by
  refine bind (isAt _) fun _ => ite (bind packageBody fun _ => pure _) ?_
  exact bind packageName fun x => bind (items h x) fun _ => bind (log _) fun _ => pure _

theorem nextCreate? : Local i j more nextCreate? :=
  bind (passTo (splitsLocally_splitPackage none)) fun _ => bind atEnd fun _ => pure _

end Local

end Parser

end PackageDoc
