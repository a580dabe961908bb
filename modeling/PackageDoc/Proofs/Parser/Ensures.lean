/-
  What parsers ensure.

  `Ensures i p Q` says that whatever the parser `p` gives on the tokens of the
  input `i` satisfies `Q`, and that `p` does not get to the end of the input over
  a fault of the scanner.  There is a rule for each way of putting parsers
  together (`Ensures.bind`, `Ensures.ite`), with an invariant for loops
  (`Ensures.iterate`); what the primitives ensure is that the tokens that they
  give are tokens of the input, next to each other and in order.
-/
import PackageDoc.Parser.Package
import PackageDoc.Proofs.Parser.Outcome

namespace PackageDoc.Parser

variable {α β σ : Type} {i : Input} {ts mid rest : List DocToken}

/-- What the parser gives satisfies `Q`, and the parser does not move to the end
    of the input over a fault. -/
def Ensures (i : Input) (p : Parser α) (Q : α → Prop) : Prop :=
  ∀ ts a rest, ts <:+ i.tokens → Returns p i ts a rest → Reaches i ts rest ∧ Q a

/-! ## Moves -/

theorem Reaches.refl (i : Input) (ts : List DocToken) : Reaches i ts ts :=
  fun hne hnil => absurd hnil hne

theorem Reaches.trans (h : Reaches i ts mid) (h' : Reaches i mid rest) : Reaches i ts rest := by
  intro hts hrest
  by_cases hmid : mid = []
  · exact h hts hmid
  · exact h' hmid hrest

namespace Ensures

variable {p q : Parser α} {P Q : α → Prop}

/-! ## Rules -/

theorem weaken (h : Ensures i p P) (hPQ : ∀ a, P a → Q a) : Ensures i p Q := by
  intro ts a rest hts ha
  obtain ⟨hreaches, hP⟩ := h ts a rest hts ha
  exact ⟨hreaches, hPQ a hP⟩

/-- What is known of the results in another way. -/
theorem and (h : Ensures i p P)
    (hQ : ∀ ts a rest, ts <:+ i.tokens → Returns p i ts a rest → Q a) :
    Ensures i p fun a => P a ∧ Q a := by
  intro ts a rest hts ha
  obtain ⟨hreaches, hP⟩ := h ts a rest hts ha
  exact ⟨hreaches, hP, hQ ts a rest hts ha⟩

theorem result (h : Ensures i p Q) (hts : ts <:+ i.tokens) {a : α} (ha : Returns p i ts a rest) :
    Q a :=
  (h ts a rest hts ha).2

theorem of_returns (h : Ensures i p fun _ => True)
    (hQ : ∀ ts a rest, ts <:+ i.tokens → Returns p i ts a rest → Q a) : Ensures i p Q :=
  (h.and hQ).weaken fun _ => And.right

theorem pure {a : α} (h : Q a) : Ensures i (Pure.pure a) Q := by
  intro ts b rest hts hb
  obtain ⟨rfl, rfl⟩ := returns_pure.1 hb
  exact ⟨.refl i rest, h⟩

theorem bind {f : α → Parser β} {R : β → Prop} (hp : Ensures i p Q)
    (hf : ∀ a, Q a → Ensures i (f a) R) : Ensures i (p >>= f) R := by
  intro ts b rest hts h
  obtain ⟨a, mid, ha, hb⟩ := returns_bind.1 h
  obtain ⟨hmid, hQ⟩ := hp ts a mid hts ha
  obtain ⟨hrest, hR⟩ := hf a hQ mid b rest (ha.suffix.trans hts) hb
  exact ⟨hmid.trans hrest, hR⟩

theorem ite {c : Prop} [Decidable c] (hp : c → Ensures i p Q) (hq : ¬ c → Ensures i q Q) :
    Ensures i (if c then p else q) Q := by
  split
  · rename_i hc
    exact hp hc
  · rename_i hc
    exact hq hc

/-- A parser that is only run under a condition. -/
theorem when {c : Prop} [Decidable c] {p : Parser Unit} {f : Unit → Parser α}
    (hp : Ensures i p fun _ => True) (hf : Ensures i (f ()) Q) :
    Ensures i (if c then p >>= f else f ()) Q :=
  ite (fun _ => bind hp fun _ _ => hf) fun _ => hf

theorem fail (fault : ParseFault) : Ensures i (Parser.fail fault) Q :=
  fun _ _ _ _ h => absurd h not_returns_fail

/-- A loop keeps an invariant. -/
theorem iterate {step : σ → Parser (σ ⊕ α)} {finish : σ → α} {Inv : σ → Prop}
    (hstep : ∀ s, Inv s → Ensures i (step s) (Sum.elim Inv Q))
    (hfinish : ∀ s, Inv s → Q (finish s)) {s : σ} (hs : Inv s) :
    Ensures i (Parser.iterate step finish s) Q := by
  intro ts a rest hts h
  -- beside the invariant, the way from `ts` to where the loop is at
  refine Returns.iterate (fun s us => Inv s ∧ us <:+ i.tokens ∧ Reaches i ts us)
    (fun a us => Reaches i ts us ∧ Q a) ?_ ?_ ⟨hs, hts, .refl i ts⟩ h
  · rintro s t us x mid ⟨hs, hsuffix, hreaches⟩ hfirst hround
    have hus : us <:+ i.tokens := (List.suffix_cons t us).trans hsuffix
    obtain ⟨hmid, hx⟩ := hstep s hs us x mid hus hround
    have hadvance : Reaches i (t :: us) us := fun _ hnil => hfirst (by simp) hnil
    have hreaches' := (hreaches.trans hadvance).trans hmid
    cases x with
    | inr b => exact ⟨hreaches', hx⟩
    | inl s' => exact ⟨hx, hround.suffix.trans hus, hreaches'⟩
  · rintro s ⟨hs, -, hreaches⟩
    exact ⟨hreaches, hfinish s hs⟩

/-! ## Primitives -/

theorem current : Ensures i current fun t => t ∈ i.tokens ∨ t = i.eof := by
  intro ts t rest hts h
  obtain ⟨rfl, rfl⟩ := returns_current.1 h
  refine ⟨.refl i rest, ?_⟩
  cases rest with
  | nil => exact .inr rfl
  | cons d ds => exact .inl (hts.subset (by simp [Input.current]))

theorem atEnd : Ensures i atEnd fun _ => True := by
  intro ts b rest hts h
  obtain ⟨-, rfl⟩ := returns_atEnd.1 h
  exact ⟨.refl i rest, trivial⟩

theorem input : Ensures i input (· = i) := by
  intro ts j rest hts h
  obtain ⟨rfl, rfl⟩ := returns_input.1 h
  exact ⟨.refl j rest, rfl⟩

theorem log (e : Event) : Ensures i (Parser.log e) fun _ => True := by
  intro ts u rest hts h
  obtain rfl := returns_log.1 h
  exact ⟨.refl i rest, trivial⟩

/-- The tokens passed over follow each other in the input.  To get to its end,
    all tokens are passed over. -/
theorem passTo (f : List DocToken → List DocToken × List DocToken)
    (hf : ∀ ts, (f ts).1 ++ (f ts).2 = ts) :
    Ensures i (Parser.passTo f hf) (· <:+: i.tokens) := by
  intro ts passed rest hts h
  obtain ⟨rfl, rfl, hreaches⟩ := returns_passTo.1 h
  constructor
  · intro hne hnil
    refine hreaches (fun hpassed => hne ?_) hnil
    rw [← hf ts, hpassed, hnil, List.nil_append]
  · exact List.IsInfix.trans (List.IsPrefix.isInfix ⟨_, hf ts⟩) hts.isInfix

theorem advance : Ensures i advance fun _ => True := by
  intro ts u rest hts h
  obtain ⟨rfl, hreaches⟩ := returns_advance.1 h
  exact ⟨fun hne hnil => hreaches (by simpa using hne) hnil, trivial⟩

theorem takeTo (stop : DocToken → Bool) : Ensures i (Parser.takeTo stop) (· <:+: i.tokens) :=
  passTo _ _

theorem takeNested (stop : TokenKind → Bool) :
    Ensures i (Parser.takeNested stop) (· <:+: i.tokens) :=
  passTo _ _

theorem skipTo (kind : TokenKind) : Ensures i (Parser.skipTo kind) fun _ => True :=
  bind (takeTo _) fun _ _ => pure trivial

theorem isAt (kind : TokenKind) : Ensures i (Parser.isAt kind) fun _ => True :=
  bind current fun _ _ => pure trivial

theorem require (kind : TokenKind) : Ensures i (Parser.require kind) fun _ => True :=
  bind current fun _ _ => ite (fun _ => pure trivial) fun _ => fail _

theorem name (heof : i.eof.kind ≠ .ident) :
    Ensures i name fun x => ∃ t ∈ i.tokens, t.kind = .ident ∧ x = ⟨t.lexeme, t.span⟩ := by
  intro ts x rest hts h
  obtain ⟨hkind, rfl, rfl⟩ := returns_name.1 h
  refine ⟨.refl i rest, _, ?_, hkind, rfl⟩
  cases rest with
  | nil => exact absurd hkind heof
  | cons d ds => exact hts.subset (by simp [Input.current])

end Ensures

end PackageDoc.Parser
