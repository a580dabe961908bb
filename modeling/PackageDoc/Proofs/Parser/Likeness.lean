/-
  Two runs of the parser.

  The parser looks at the kinds of tokens and at the lexemes of words; offsets,
  lines, comments and what strings say only go into what it gives.  So two inputs
  whose tokens agree in kind, and in lexeme unless they are strings, are parsed alike,
  and a recast that takes the rest of the one to that of the other takes its packages
  to those of the other.

  A `Likeness` of two inputs consists of two recasts, under which their tokens
  must agree, and of a relation between the errors.  `Likeness.Alike R p q` says
  that `p` on the one input and `q` on the other both give results related by
  `R`, and stop at the same place, or both fail with related errors.  Each
  primitive is alike itself, `bind` chains parsers that are alike, and `iterate`
  repeats them.
-/
import Mathlib.Data.List.Forall2
import PackageDoc.Parser.Package
import PackageDoc.Proofs.Decl.Recast
import PackageDoc.Proofs.Parser.Outcome

namespace PackageDoc

/-! ## Likenesses -/

/-- How two inputs are compared: by recasts of what they give, and by a relation
    between their errors. -/
structure Comparison where
  left : Recast
  right : Recast
  error : ParseError → ParseError → Prop

/-- Two tokens that the parser cannot tell apart, and that agree under the
    recasts. -/
structure Comparison.Token (C : Comparison) (i j : Input) (t u : DocToken) : Prop where
  kind : t.kind = u.kind
  word : t.kind ≠ .string → t.lexeme = u.lexeme
  text : C.left.text t.lexeme = C.right.text u.lexeme
  start : C.left.place t.span.start = C.right.place u.span.start
  stop : C.left.place t.span.stop = C.right.place u.span.stop
  /-- the last byte of the token -/
  inner : C.left.place (t.span.stop - 1) = C.right.place (u.span.stop - 1)
  lead : C.left.doc t.leadDoc = C.right.doc u.leadDoc
  field : C.left.doc t.fieldDoc = C.right.doc u.fieldDoc
  fails : ∀ fault, C.error (i.errorAt t.line fault) (j.errorAt u.line fault)

/-- Places of two inputs where what is left to be read agrees. -/
structure Comparison.Tokens (C : Comparison) (i j : Input) (ts us : List DocToken) : Prop where
  left : ts <:+ i.tokens
  right : us <:+ j.tokens
  alike : List.Forall₂ (C.Token i j) ts us

/-- The tokens where two places agree. -/
theorem Comparison.Tokens.current {C : Comparison} {i j : Input} {ts us : List DocToken}
    (h : C.Tokens i j ts us) (heof : C.Token i j i.eof j.eof) :
    C.Token i j (i.current ts) (j.current us) := by
  cases h.alike with
  | nil => exact heof
  | cons ht _ => exact ht

/-- A comparison under which the ends of two inputs and the texts between their
    tokens agree. -/
structure Likeness (i j : Input) extends Comparison where
  left_max (m n : Nat) : left.place (max m n) = max (left.place m) (left.place n)
  right_max (m n : Nat) : right.place (max m n) = max (right.place m) (right.place n)
  succ {m n : Nat} : left.place m = right.place n → left.place (m + 1) = right.place (n + 1)
  text_eq : left.text = right.text
  text_append (s t : String) : left.text (s ++ t) = left.text s ++ left.text t
  eof : toComparison.Token i j i.eof j.eof
  fault : (i.fault? = none ∧ j.fault? = none) ∨ ∃ e e', i.fault? = some e ∧ j.fault? = some e' ∧
    error (i.scanError e) (j.scanError e')
  query {ts us ts' us' : List DocToken} : toComparison.Tokens i j ts us →
    toComparison.Tokens i j ts' us' → ts' <:+ ts → us' <:+ us →
    left.query (String.ofList
        (Text.slice i.text (i.current ts).span.start (i.current ts').span.start)) =
      right.query (String.ofList
        (Text.slice j.text (j.current us).span.start (j.current us').span.start))

namespace Likeness

variable {i j : Input} (L : Likeness i j) {α β σ : Type}

/-- Two ways for a parser to end that agree. -/
inductive Outcomes (R : α → α → Prop) :
    Except ParseError (α × List DocToken) → Except ParseError (α × List DocToken) → Prop where
  | ok {a b : α} {ts us : List DocToken} : R a b → L.Tokens i j ts us →
      Outcomes R (.ok (a, ts)) (.ok (b, us))
  | error {e e' : ParseError} : L.error e e' → Outcomes R (.error e) (.error e')

/-- Two parsers that agree wherever the rest of the inputs does. -/
def Alike (R : α → α → Prop) (p q : Parser α) : Prop :=
  ∀ ts us, L.Tokens i j ts us → L.Outcomes R (p.outcome i ts) (q.outcome j us)

/-- Results that agree under the recasts. -/
def Same (recast : Recast → α → α) (a b : α) : Prop := recast L.left a = recast L.right b

variable {L} {R : α → α → Prop} {S : β → β → Prop}

/-! ## Single steps -/

/-- Results may be related by less. -/
theorem Alike.mono {R' : α → α → Prop} {p q : Parser α} (h : L.Alike R p q)
    (hR : ∀ a b, R a b → R' a b) : L.Alike R' p q := by
  intro ts us hts
  have hout := h ts us hts
  generalize p.outcome i ts = x at hout ⊢
  generalize q.outcome j us = y at hout ⊢
  cases hout with
  | ok hab hrest => exact .ok (hR _ _ hab) hrest
  | error he => exact .error he

theorem pure {a b : α} (h : R a b) : L.Alike R (Pure.pure a) (Pure.pure b) :=
  fun _ _ hts => .ok h hts

theorem Outcomes.bind {x y : Except ParseError (α × List DocToken)}
    {f g : α × List DocToken → Except ParseError (β × List DocToken)} (h : L.Outcomes R x y)
    (hfg : ∀ a b ts us, x = .ok (a, ts) → y = .ok (b, us) → R a b → L.Tokens i j ts us →
      L.Outcomes S (f (a, ts)) (g (b, us))) :
    L.Outcomes S (x.bind f) (y.bind g) := by
  cases h with
  | ok hab hrest => exact hfg _ _ _ _ rfl rfl hab hrest
  | error he => exact .error he

/-- Parsers that agree, each followed by one that agrees for its result. -/
theorem bind {p q : Parser α} {f g : α → Parser β} (hp : L.Alike R p q)
    (hf : ∀ a b, R a b → L.Alike S (f a) (g b)) : L.Alike S (p >>= f) (q >>= g) := by
  intro ts us hts
  rw [Parser.outcome_bind, Parser.outcome_bind]
  exact (hp ts us hts).bind fun a b _ _ _ _ hab hrest => hf a b hab _ _ hrest

theorem fail (fault : ParseFault) : L.Alike R (Parser.fail fault) (Parser.fail fault) := by
  intro ts us hts
  exact .error ((hts.current L.eof).fails fault)

theorem log (e e' : Event) : L.Alike Eq (Parser.log e) (Parser.log e') :=
  fun _ _ hts => .ok rfl hts

theorem current : L.Alike (L.Token i j) Parser.current Parser.current :=
  fun _ _ hts => .ok (hts.current L.eof) hts

theorem atEnd : L.Alike Eq Parser.atEnd Parser.atEnd := by
  intro ts us hts
  refine .ok ?_ hts
  cases hts.alike <;> rfl

/-- Moves over tokens that agree. -/
theorem outcomes_arrive {ps ts qs us : List DocToken} (hp : List.Forall₂ (L.Token i j) ps qs)
    (ht : L.Tokens i j ts us) :
    L.Outcomes (List.Forall₂ (L.Token i j)) (Parser.arrive i ps ts).outcome
      (Parser.arrive j qs us).outcome := by
  have hps : ps.isEmpty = qs.isEmpty := by cases hp <;> rfl
  have hts : ts.isEmpty = us.isEmpty := by cases ht.alike <;> rfl
  unfold Parser.arrive
  simp only [← hps, ← hts]
  split
  · rcases L.fault with ⟨hi, hj⟩ | ⟨e, e', hi, hj, he⟩
    · simp only [hi, hj]
      exact .ok hp ht
    · simp only [hi, hj]
      exact .error he
  · exact .ok hp ht

/-- Splits tokens in a way that depends on kinds and lexemes only. -/
def Splits (L : Likeness i j) (f g : List DocToken → List DocToken × List DocToken) : Prop :=
  ∀ ts us, List.Forall₂ (L.Token i j) ts us →
    List.Forall₂ (L.Token i j) (f ts).1 (g us).1 ∧ List.Forall₂ (L.Token i j) (f ts).2 (g us).2

theorem passTo {f g : List DocToken → List DocToken × List DocToken}
    (hf : ∀ ts, (f ts).1 ++ (f ts).2 = ts) (hg : ∀ ts, (g ts).1 ++ (g ts).2 = ts)
    (h : L.Splits f g) :
    L.Alike (List.Forall₂ (L.Token i j)) (Parser.passTo f hf) (Parser.passTo g hg) := by
  intro ts us hts
  obtain ⟨hp, hr⟩ := h ts us hts.alike
  refine outcomes_arrive hp ⟨?_, ?_, hr⟩
  · exact List.IsSuffix.trans ⟨_, hf ts⟩ hts.left
  · exact List.IsSuffix.trans ⟨_, hg us⟩ hts.right

/-- A property of tokens that depends on kind and lexeme only. -/
def Tests (L : Likeness i j) (stop : DocToken → Bool) : Prop :=
  ∀ t u, L.Token i j t u → stop t = stop u

theorem tests_kind (kind : TokenKind) : L.Tests (·.kind = kind) :=
  fun _ _ h => by simp only [h.kind]

theorem splits_takeTo {stop : DocToken → Bool} (h : L.Tests stop) :
    L.Splits (fun ts => (ts.takeWhile (!stop ·), ts.dropWhile (!stop ·)))
      (fun ts => (ts.takeWhile (!stop ·), ts.dropWhile (!stop ·))) := by
  intro ts us hts
  induction hts with
  | nil => exact ⟨.nil, .nil⟩
  | cons ht hts ih =>
    have hs := h _ _ ht
    simp only [List.takeWhile_cons, List.dropWhile_cons, ← hs]
    split
    · exact ⟨.cons ht ih.1, ih.2⟩
    · exact ⟨.nil, .cons ht hts⟩

theorem takeTo {stop : DocToken → Bool} (h : L.Tests stop) :
    L.Alike (List.Forall₂ (L.Token i j)) (Parser.takeTo stop) (Parser.takeTo stop) :=
  passTo _ _ (splits_takeTo h)

theorem skipTo (kind : TokenKind) : L.Alike Eq (Parser.skipTo kind) (Parser.skipTo kind) :=
  bind (takeTo (tests_kind kind)) fun _ _ _ => pure rfl

theorem advance : L.Alike Eq Parser.advance Parser.advance := by
  rintro ts us ⟨hl, hr, hts⟩
  cases hts with
  | nil => exact .ok rfl ⟨hl, hr, .nil⟩
  | @cons t u ts us ht hts =>
    have hsuffix : L.Tokens i j ts us :=
      ⟨(List.suffix_cons t ts).trans hl, (List.suffix_cons u us).trans hr, hts⟩
    have h := outcomes_arrive (.cons ht .nil) hsuffix
    simp only [Parser.outcome, Parser.advance]
    generalize Parser.arrive i [t] ts = P at h
    generalize Parser.arrive j [u] us = Q at h
    obtain ⟨pe, po⟩ := P
    obtain ⟨qe, qo⟩ := Q
    cases h with
    | ok _ hrest => exact .ok rfl hrest
    | error he => exact .error he

theorem isAt (kind : TokenKind) : L.Alike Eq (Parser.isAt kind) (Parser.isAt kind) :=
  bind current fun t u htu => pure (by rw [htu.kind])

theorem require (kind : TokenKind) : L.Alike Eq (Parser.require kind) (Parser.require kind) := by
  refine bind current fun t u htu => ?_
  rw [htu.kind]
  split
  · exact pure rfl
  · exact fail _

/-! ## Loops -/

/-- Loops of steps that agree.  The induction is on what is left to be read,
    which every round makes shorter. -/
theorem iterate {Q : σ → σ → Prop} {step step' : σ → Parser (σ ⊕ α)} {finish finish' : σ → α}
    (hstep : ∀ s s', Q s s' → L.Alike (Sum.LiftRel Q R) (step s) (step' s'))
    (hfinish : ∀ s s', Q s s' → R (finish s) (finish' s')) {s s' : σ} (hs : Q s s') :
    L.Alike R (Parser.iterate step finish s) (Parser.iterate step' finish' s') := by
  suffices h : ∀ n ts us, ts.length ≤ n → L.Tokens i j ts us → ∀ s s', Q s s' →
      L.Outcomes R ((Parser.iterate step finish s).outcome i ts)
        ((Parser.iterate step' finish' s').outcome j us) from
    fun ts us hts => h ts.length ts us (Nat.le_refl _) hts s s' hs
  intro n
  induction n with
  | zero =>
    rintro ts us hn ⟨hl, hr, hts⟩ s s' hs
    cases hts with
    | nil =>
      rw [Parser.outcome_iterate_nil, Parser.outcome_iterate_nil]
      exact .ok (hfinish _ _ hs) ⟨hl, hr, .nil⟩
    | cons => simp at hn
  | succ n ih =>
    intro ts us hn hts s s' hs
    have hadvance := advance ts us hts
    cases hts.alike with
    | nil =>
      rw [Parser.outcome_iterate_nil, Parser.outcome_iterate_nil]
      exact .ok (hfinish _ _ hs) hts
    | @cons t u ts us ht hts' =>
      rw [Parser.outcome_iterate_cons, Parser.outcome_iterate_cons]
      simp only [Parser.outcome_bind]
      refine hadvance.bind fun _ _ ts₁ us₁ hadv _ _ hts₁ => ?_
      refine (hstep s s' hs ts₁ us₁ hts₁).bind fun x y ts₂ us₂ hrun _ hxy hts₂ => ?_
      cases hxy with
      | inl hs' =>
        refine ih _ _ ?_ hts₂ _ _ hs'
        obtain rfl : ts₁ = ts := (Parser.returns_advance.1 hadv).1
        have hshorter := ((step s).suffix hrun).length_le
        simp only [List.length_cons] at hn
        omega
      | inr hab => exact .ok hab hts₂

end Likeness

end PackageDoc
