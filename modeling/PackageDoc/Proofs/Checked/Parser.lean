/-
  Parsers that can fail.

  A checked parser runs like a parser, but where an operation of a production is one that
  a program cannot do, it gives nothing.  `Agrees i us q p` says that on whatever is left of
  the tokens `us` of an input, the checked parser `q` gives what the parser `p` does.  There
  is a rule for each way of putting parsers together; the one for loops shows besides that
  each round moves on.
-/
import PackageDoc.Parser.Package
import PackageDoc.Proofs.Parser.Outcome

namespace PackageDoc.Checked

open PackageDoc.Parser

variable {α β γ σ : Type}

/-- A parser that can fail. -/
structure CheckedParser (α : Type) where
  run : Input → List DocToken → Option (Run α)

namespace CheckedParser

/-- Runs a parser and then the one that its result selects. -/
protected def bind (q : CheckedParser α) (g : α → CheckedParser β) : CheckedParser β where
  run i ts := do
    match ← q.run i ts with
    | ⟨events, .error e⟩ => return ⟨events, .error e⟩
    | ⟨events, .ok (a, rest)⟩ =>
      let next ← (g a).run i rest
      return ⟨events ++ next.events, next.outcome⟩

instance : Monad CheckedParser where
  pure a := ⟨fun _ ts => some ⟨[], .ok (a, ts)⟩⟩
  bind := CheckedParser.bind

/-- A parser that does not fail. -/
instance : MonadLift Parser CheckedParser where
  monadLift p := ⟨fun i ts => some (p.run i ts)⟩

/-- A value that there may not be. -/
instance : MonadLift Option CheckedParser where
  monadLift a? := ⟨fun _ ts => a?.map fun a => ⟨[], .ok (a, ts)⟩⟩

/-- Splits the tokens, if that can be done, moves over the first part and gives it. -/
def passTo (f? : List DocToken → Option (List DocToken × List DocToken)) :
    CheckedParser (List DocToken) where
  run i ts := do
    let (passed, rest) ← f? ts
    return arrive i passed rest

/-- Runs `step` again and again, as `Parser.iterate` does.  A round that does not move on
    would be repeated for ever. -/
def iterateRun? (step : σ → CheckedParser (σ ⊕ α)) (finish : σ → α) (s : σ) (i : Input) :
    List DocToken → Option (Run α)
  | [] => some ⟨[], .ok (finish s, [])⟩
  | t :: ts =>
    match advance.run i (t :: ts) with
    | ⟨events, .error e⟩ => some ⟨events, .error e⟩
    | ⟨events, .ok ((), rest)⟩ => do
      match ← (step s).run i rest with
      | ⟨events', .error e⟩ => return ⟨events ++ events', .error e⟩
      | ⟨events', .ok (.inr a, rest')⟩ => return ⟨events ++ events', .ok (a, rest')⟩
      | ⟨events', .ok (.inl s', rest')⟩ =>
        if _ : rest'.length < (t :: ts).length then
          let more ← iterateRun? step finish s' i rest'
          return ⟨events ++ events' ++ more.events, more.outcome⟩
        else none
termination_by ts => ts.length
decreasing_by assumption

/-- A loop of a parser that can fail. -/
def iterate (step : σ → CheckedParser (σ ⊕ α)) (finish : σ → α) (s : σ) : CheckedParser α where
  run i ts := iterateRun? step finish s i ts

end CheckedParser

/-- On what is left of some tokens, the checked parser does what the parser does. -/
def Agrees (i : Input) (us : List DocToken) (q : CheckedParser α) (p : Parser α) : Prop :=
  ∀ ts, ts <:+ us → q.run i ts = some (p.run i ts)

namespace Agrees

variable {i : Input} {us : List DocToken} {q : CheckedParser α} {p : Parser α}

theorem lift (p : Parser α) : Agrees i us (liftM p) p := fun _ _ => rfl

theorem pure (a : α) : Agrees i us (Pure.pure a) (Pure.pure a) := fun _ _ => rfl

/-- What follows a parser may rely on what that gives. -/
theorem bind_of {g : α → CheckedParser β} {f : α → Parser β} {Q : α → Prop} (hq : Agrees i us q p)
    (hQ : ∀ ts a rest, ts <:+ us → Returns p i ts a rest → Q a)
    (hf : ∀ a, Q a → Agrees i us (g a) (f a)) : Agrees i us (q >>= g) (p >>= f) := by
  intro ts hts
  change (CheckedParser.bind q g).run i ts = Option.some ((Parser.bind p f).run i ts)
  rcases hrun : p.run i ts with ⟨events, e | ⟨a, rest⟩⟩
  · simp [CheckedParser.bind, Parser.bind, hq ts hts, hrun]
  · have hreturns : Returns p i ts a rest := by rw [Returns, outcome, hrun]
    have hmore := hf a (hQ ts a rest hts hreturns) rest (hreturns.suffix.trans hts)
    simp [CheckedParser.bind, Parser.bind, hq ts hts, hrun, hmore]

theorem bind {g : α → CheckedParser β} {f : α → Parser β} (hq : Agrees i us q p)
    (hf : ∀ a, Agrees i us (g a) (f a)) : Agrees i us (q >>= g) (p >>= f) :=
  hq.bind_of (Q := fun _ => True) (fun _ _ _ _ _ => trivial) fun a _ => hf a

theorem lifted {p : Parser β} {g : β → CheckedParser α} {f : β → Parser α}
    (hf : ∀ b, Agrees i us (g b) (f b)) : Agrees i us (liftM p >>= g) (p >>= f) :=
  (lift p).bind hf

theorem some {a? : Option γ} {a : γ} {g : γ → CheckedParser α} (ha : a? = Option.some a)
    (h : Agrees i us (g a) p) : Agrees i us (liftM a? >>= g) p := by
  intro ts hts
  subst ha
  have hmore := h ts hts
  change (CheckedParser.bind ⟨fun _ ts => Option.some ⟨[], .ok (a, ts)⟩⟩ g).run i ts = _
  simp [CheckedParser.bind, hmore]

theorem advance {g : Unit → CheckedParser α} {f : Unit → Parser α}
    (h : Agrees i us.tail (g ()) (f ())) :
    Agrees i us (liftM Parser.advance >>= g) (Parser.advance >>= f) := by
  intro ts hts
  change (CheckedParser.bind (liftM Parser.advance) g).run i ts =
    Option.some ((Parser.bind Parser.advance f).run i ts)
  have hlift : (liftM Parser.advance : CheckedParser Unit).run i ts =
      Option.some (Parser.advance.run i ts) := rfl
  rcases hrun : Parser.advance.run i ts with ⟨events, e | ⟨⟨⟩, rest⟩⟩
  · simp [CheckedParser.bind, Parser.bind, hlift, hrun]
  · have hreturns : Returns Parser.advance i ts () rest := by rw [Returns, outcome, hrun]
    obtain ⟨rfl, -⟩ := returns_advance.1 hreturns
    have htail : ts.tail <:+ us.tail := by
      obtain ⟨front, rfl⟩ := hts
      cases front with
      | nil => exact List.suffix_refl _
      | cons t front => exact (List.tail_suffix ts).trans (List.suffix_append front ts)
    have hmore := h ts.tail htail
    simp [CheckedParser.bind, Parser.bind, hlift, hrun, hmore]

theorem passTo {f? : List DocToken → Option (List DocToken × List DocToken)}
    {f : List DocToken → List DocToken × List DocToken} {hf : ∀ ts, (f ts).1 ++ (f ts).2 = ts}
    (h : ∀ ts, ts <:+ us → f? ts = Option.some (f ts)) :
    Agrees i us (CheckedParser.passTo f?) (Parser.passTo f hf) := by
  intro ts hts
  simp [CheckedParser.passTo, Parser.passTo, h ts hts]

theorem ite {c : Prop} [Decidable c] {q' : CheckedParser α} {p' : Parser α}
    (h : c → Agrees i us q p) (h' : ¬ c → Agrees i us q' p') : Agrees i us (if c then q else q') (if c then p else p') := by
  split
  · rename_i hc
    exact h hc
  · rename_i hc
    exact h' hc

/-- A parser that is only run under a condition. -/
theorem when {c : Prop} [Decidable c] {q : CheckedParser Unit} {p : Parser Unit}
    {g : Unit → CheckedParser α} {f : Unit → Parser α} (hp : Agrees i us q p)
    (hf : Agrees i us (g ()) (f ())) :
    Agrees i us (if c then q >>= g else g ()) (if c then p >>= f else f ()) :=
  ite (fun _ => hp.bind fun _ => hf) fun _ => hf

theorem iterate {step : σ → CheckedParser (σ ⊕ α)} {step' : σ → Parser (σ ⊕ α)} {finish : σ → α}
    (h : ∀ s, Agrees i us (step s) (step' s)) (s : σ) :
    Agrees i us (CheckedParser.iterate step finish s) (Parser.iterate step' finish s) := by
  intro ts hts
  change CheckedParser.iterateRun? step finish s i ts = Option.some (iterateRun step' finish s i ts)
  fun_induction iterateRun step' finish s i ts with
  | case1 s => simp [CheckedParser.iterateRun?]
  | case2 s t ts events e hadvance => simp [CheckedParser.iterateRun?, hadvance]
  | case3 s t ts events rest hadvance events' e hround =>
    have hrest : rest <:+ us := (Parser.advance.suffix (by rw [hadvance])).trans hts
    simp [CheckedParser.iterateRun?, hadvance, h s rest hrest, hround]
  | case4 s t ts events rest hadvance events' a rest' hround =>
    have hrest : rest <:+ us := (Parser.advance.suffix (by rw [hadvance])).trans hts
    simp [CheckedParser.iterateRun?, hadvance, h s rest hrest, hround]
  | case5 s t ts events rest hadvance events' s' rest' hround hlt more ih =>
    have hrest : rest <:+ us := (Parser.advance.suffix (by rw [hadvance])).trans hts
    have hmore := ih (((step' s).suffix (by rw [hround])).trans hrest)
    simpa [CheckedParser.iterateRun?, hadvance, h s rest hrest, hround, hmore, more] using hlt

end Agrees

end PackageDoc.Checked
