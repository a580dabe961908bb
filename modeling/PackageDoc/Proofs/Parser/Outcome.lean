/-
  How parsers end.

  `Parser.outcome` is a run without what it logs: a result with the tokens that
  are left, or an error.  Outcomes of a sequence chain (`outcome_bind`), and a
  loop is a round followed by the loop (`run_iterate_cons`).

  `Returns p i ts a rest` says that `p`, with `ts` left to be read, gives `a` and
  leaves `rest`.  For every primitive there is an equivalence that tells what it
  returns and when, so that a production can be run forwards on tokens that are
  known and backwards from its result.
-/
import Mathlib.Data.Bool.Basic
import PackageDoc.Parser.Basic

namespace PackageDoc.Parser

variable {α β σ : Type} {i : Input} {ts rest : List DocToken}

/-! ## Outcomes -/

/-- The result of a parser with the tokens that it leaves, or its error. -/
def outcome (p : Parser α) (i : Input) (ts : List DocToken) :
    Except ParseError (α × List DocToken) :=
  (p.run i ts).outcome

theorem outcome_pure (a : α) : (pure a : Parser α).outcome i ts = .ok (a, ts) := rfl

theorem outcome_bind (p : Parser α) (f : α → Parser β) :
    (p >>= f).outcome i ts = (p.outcome i ts).bind fun x => (f x.1).outcome i x.2 := by
  show ((Parser.bind p f).run i ts).outcome = (p.run i ts).outcome.bind _
  simp only [Parser.bind]
  cases p.run i ts with
  | mk events outcome => cases outcome <;> rfl

theorem outcome_iterate_nil (step : σ → Parser (σ ⊕ α)) (finish : σ → α) (s : σ) :
    (iterate step finish s).outcome i [] = .ok (finish s, []) := by
  simp only [outcome, iterate, iterateRun]

/-- A loop is a round, and the loop again unless the round has a result. -/
theorem run_iterate_cons (step : σ → Parser (σ ⊕ α)) (finish : σ → α) (s : σ)
    (t : DocToken) (ts : List DocToken) :
    (iterate step finish s).run i (t :: ts) =
      (advance >>= fun _ => step s >>= Sum.elim (iterate step finish) pure).run i (t :: ts) := by
  suffices h : ∀ us, us ≠ [] → iterateRun step finish s i us =
      (advance >>= fun _ => step s >>= Sum.elim (iterate step finish) pure).run i us from
    h _ (by simp)
  intro us hus
  fun_cases iterateRun step finish s i us with
  | case1 => exact absurd rfl hus
  | case2 t ts events e h => simp [bind, Parser.bind, h]
  | case3 t ts events rest h events' e h' => simp [bind, Parser.bind, h, h']
  | case4 t ts events rest h events' a rest' h' => simp [bind, Parser.bind, h, h', pure, Parser.pure]
  | case5 t ts events rest h events' s' rest' h' hlt more =>
    simp [bind, Parser.bind, iterate, h, h', more]

theorem outcome_iterate_cons (step : σ → Parser (σ ⊕ α)) (finish : σ → α) (s : σ)
    (t : DocToken) (ts : List DocToken) :
    (iterate step finish s).outcome i (t :: ts) =
      (advance >>= fun _ => step s >>= Sum.elim (iterate step finish) pure).outcome i
        (t :: ts) :=
  congrArg Run.outcome (run_iterate_cons step finish s t ts)

/-! ## Results -/

/-- The parser `p` gives `a` and leaves `rest`. -/
def Returns (p : Parser α) (i : Input) (ts : List DocToken) (a : α) (rest : List DocToken) : Prop :=
  p.outcome i ts = .ok (a, rest)

theorem Returns.suffix {p : Parser α} {a : α} (h : Returns p i ts a rest) : rest <:+ ts :=
  Parser.suffix p h

@[simp]
theorem returns_pure {a b : α} : Returns (pure a) i ts b rest ↔ b = a ∧ rest = ts := by
  simp only [Returns, outcome_pure, Except.ok.injEq, Prod.mk.injEq, eq_comm]

@[simp]
theorem returns_bind {p : Parser α} {f : α → Parser β} {b : β} :
    Returns (p >>= f) i ts b rest ↔
      ∃ a mid, Returns p i ts a mid ∧ Returns (f a) i mid b rest := by
  simp only [Returns, outcome_bind]
  cases p.outcome i ts with
  | error e => simp [Except.bind]
  | ok x =>
    simp only [Except.bind, Except.ok.injEq, Prod.ext_iff]
    grind

@[simp]
theorem returns_ite {c : Prop} [Decidable c] {p q : Parser α} {a : α} :
    Returns (if c then p else q) i ts a rest ↔
      if c then Returns p i ts a rest else Returns q i ts a rest := by
  split <;> rfl

@[simp]
theorem returns_current {t : DocToken} :
    Returns current i ts t rest ↔ t = i.current ts ∧ rest = ts := by
  simp only [Returns, outcome, current, Except.ok.injEq, Prod.mk.injEq, eq_comm]

@[simp]
theorem returns_atEnd {b : Bool} : Returns atEnd i ts b rest ↔ b = ts.isEmpty ∧ rest = ts := by
  simp only [Returns, outcome, atEnd, Except.ok.injEq, Prod.mk.injEq, eq_comm]

@[simp]
theorem returns_input {j : Input} : Returns input i ts j rest ↔ j = i ∧ rest = ts := by
  simp only [Returns, outcome, input, Except.ok.injEq, Prod.mk.injEq, eq_comm]

@[simp]
theorem returns_log {e : Event} {u : Unit} : Returns (log e) i ts u rest ↔ rest = ts := by
  simp only [Returns, outcome, log, Except.ok.injEq, Prod.mk.injEq, eq_comm, true_and]

@[simp]
theorem not_returns_fail {fault : ParseFault} {a : α} : ¬ Returns (fail fault) i ts a rest :=
  nofun

/-! ## Moves -/

/-- A move over `passed` to `rest` does not run into a fault of the scanner. -/
def Reaches (i : Input) (passed rest : List DocToken) : Prop :=
  passed ≠ [] → rest = [] → i.fault? = none

theorem Reaches.of_fault_none (h : i.fault? = none) (passed rest : List DocToken) :
    Reaches i passed rest :=
  fun _ _ => h

theorem arrive_eq_ok {passed rest passed' rest' : List DocToken} :
    (arrive i passed rest).outcome = .ok (passed', rest') ↔
      passed' = passed ∧ rest' = rest ∧ Reaches i passed rest := by
  unfold arrive Reaches
  cases passed <;> cases rest <;> cases i.fault? <;> simp [eq_comm]

@[simp]
theorem returns_passTo {f : List DocToken → List DocToken × List DocToken}
    {hf : ∀ ts, (f ts).1 ++ (f ts).2 = ts} {passed : List DocToken} :
    Returns (passTo f hf) i ts passed rest ↔
      passed = (f ts).1 ∧ rest = (f ts).2 ∧ Reaches i (f ts).1 (f ts).2 :=
  arrive_eq_ok

@[simp]
theorem returns_takeTo {stop : DocToken → Bool} {passed : List DocToken} :
    Returns (takeTo stop) i ts passed rest ↔
      passed = ts.takeWhile (!stop ·) ∧ rest = ts.dropWhile (!stop ·) ∧
        Reaches i (ts.takeWhile (!stop ·)) (ts.dropWhile (!stop ·)) :=
  returns_passTo

@[simp]
theorem returns_skipTo {kind : TokenKind} {u : Unit} :
    Returns (skipTo kind) i ts u rest ↔
      rest = ts.dropWhile (fun t => !decide (t.kind = kind)) ∧
        Reaches i (ts.takeWhile fun t => !decide (t.kind = kind))
          (ts.dropWhile fun t => !decide (t.kind = kind)) := by
  simp only [skipTo, returns_bind, returns_takeTo, returns_pure]
  grind

@[simp]
theorem returns_advance {u : Unit} :
    Returns advance i ts u rest ↔ rest = ts.tail ∧ Reaches i (ts.take 1) ts.tail := by
  cases ts with
  | nil => simp [Returns, outcome, advance, Reaches, eq_comm]
  | cons t ts =>
    have harrive := @arrive_eq_ok i [t] ts
    simp only [Returns, outcome, advance]
    generalize arrive i [t] ts = r at harrive
    obtain ⟨events, e | ⟨passed', rest'⟩⟩ := r
    · simp_all
    · have h := @harrive passed' rest'
      simp_all [eq_comm]

/-! ## Single tokens -/

@[simp]
theorem returns_isAt {kind : TokenKind} {b : Bool} :
    Returns (isAt kind) i ts b rest ↔ b = decide ((i.current ts).kind = kind) ∧ rest = ts := by
  simp only [isAt, returns_bind, returns_current, returns_pure]
  grind

@[simp]
theorem returns_require {kind : TokenKind} {u : Unit} :
    Returns (require kind) i ts u rest ↔ (i.current ts).kind = kind ∧ rest = ts := by
  simp only [require, returns_bind, returns_current, returns_ite, returns_pure, not_returns_fail]
  grind

@[simp]
theorem returns_name {x : Ident} :
    Returns name i ts x rest ↔ (i.current ts).kind = .ident ∧
      x = ⟨(i.current ts).lexeme, (i.current ts).span⟩ ∧ rest = ts := by
  simp only [name, returns_bind, returns_require, returns_current, returns_pure]
  grind

@[simp]
theorem returns_nextName {x : Ident} :
    Returns nextName i ts x rest ↔ Reaches i (ts.take 1) ts.tail ∧
      (i.current ts.tail).kind = .ident ∧
      x = ⟨(i.current ts.tail).lexeme, (i.current ts.tail).span⟩ ∧ rest = ts.tail := by
  simp only [nextName, returns_bind, returns_advance, returns_name]
  grind

/-! ## Sequences -/

section
variable {f : Unit → Parser β} {b : β}

theorem returns_current_bind {f : DocToken → Parser β} :
    Returns (current >>= f) i ts b rest ↔ Returns (f (i.current ts)) i ts b rest := by
  simp [and_assoc]

theorem returns_atEnd_bind {f : Bool → Parser β} :
    Returns (atEnd >>= f) i ts b rest ↔ Returns (f ts.isEmpty) i ts b rest := by
  simp [and_assoc]

theorem returns_input_bind {f : Input → Parser β} :
    Returns (input >>= f) i ts b rest ↔ Returns (f i) i ts b rest := by
  simp [and_assoc]

theorem returns_isAt_bind {kind : TokenKind} {f : Bool → Parser β} :
    Returns (isAt kind >>= f) i ts b rest ↔
      Returns (f (decide ((i.current ts).kind = kind))) i ts b rest := by
  simp [and_assoc]

theorem returns_log_bind {e : Event} :
    Returns (log e >>= f) i ts b rest ↔ Returns (f ()) i ts b rest := by
  simp only [returns_bind, returns_log]
  grind

theorem returns_require_bind {kind : TokenKind} :
    Returns (require kind >>= f) i ts b rest ↔
      (i.current ts).kind = kind ∧ Returns (f ()) i ts b rest := by
  simp only [returns_bind, returns_require]
  grind

theorem returns_advance_bind :
    Returns (advance >>= f) i ts b rest ↔
      Reaches i (ts.take 1) ts.tail ∧ Returns (f ()) i ts.tail b rest := by
  simp only [returns_bind, returns_advance]
  grind

theorem returns_passTo_bind {g : List DocToken → List DocToken × List DocToken}
    {hg : ∀ ts, (g ts).1 ++ (g ts).2 = ts} {f : List DocToken → Parser β} :
    Returns (passTo g hg >>= f) i ts b rest ↔
      Reaches i (g ts).1 (g ts).2 ∧ Returns (f (g ts).1) i (g ts).2 b rest := by
  simp [and_assoc]

theorem returns_takeTo_bind {stop : DocToken → Bool} {f : List DocToken → Parser β} :
    Returns (takeTo stop >>= f) i ts b rest ↔
      Reaches i (ts.takeWhile (!stop ·)) (ts.dropWhile (!stop ·)) ∧
        Returns (f (ts.takeWhile (!stop ·))) i (ts.dropWhile (!stop ·)) b rest :=
  returns_passTo_bind

theorem returns_name_bind {f : Ident → Parser β} :
    Returns (name >>= f) i ts b rest ↔ (i.current ts).kind = .ident ∧
      Returns (f ⟨(i.current ts).lexeme, (i.current ts).span⟩) i ts b rest := by
  simp [and_assoc]

theorem returns_nextName_bind {f : Ident → Parser β} :
    Returns (nextName >>= f) i ts b rest ↔ Reaches i (ts.take 1) ts.tail ∧
      (i.current ts.tail).kind = .ident ∧
      Returns (f ⟨(i.current ts.tail).lexeme, (i.current ts.tail).span⟩) i ts.tail b rest := by
  simp [and_assoc]

end

/-! ## Loops -/

@[simp]
theorem returns_iterate_nil {step : σ → Parser (σ ⊕ α)} {finish : σ → α} {s : σ} {a : α} :
    Returns (iterate step finish s) i [] a rest ↔ a = finish s ∧ rest = [] := by
  simp only [Returns, outcome_iterate_nil, Except.ok.injEq, Prod.mk.injEq, eq_comm]

theorem returns_iterate_cons {step : σ → Parser (σ ⊕ α)} {finish : σ → α} {s : σ} {a : α}
    {t : DocToken} {ts : List DocToken} :
    Returns (iterate step finish s) i (t :: ts) a rest ↔
      Reaches i [t] ts ∧ ∃ x mid, Returns (step s) i ts x mid ∧
        Returns (Sum.elim (iterate step finish) pure x) i mid a rest := by
  rw [Returns, outcome_iterate_cons, ← Returns]
  simp only [returns_bind, returns_advance, List.tail_cons, List.take_succ_cons, List.take_zero]
  grind

/-- **What a loop keeps**: an invariant of its rounds gives what is left when it
    ends.  The induction is on the number of tokens that are left to be read. -/
theorem Returns.iterate {step : σ → Parser (σ ⊕ α)} {finish : σ → α}
    (Inv : σ → List DocToken → Prop) (Q : α → List DocToken → Prop)
    (hstep : ∀ s t ts x mid, Inv s (t :: ts) → Reaches i [t] ts → Returns (step s) i ts x mid →
      Sum.elim (Inv · mid) (Q · mid) x)
    (hfinish : ∀ s, Inv s [] → Q (finish s) []) {s : σ} {a : α} (hs : Inv s ts)
    (h : Returns (Parser.iterate step finish s) i ts a rest) : Q a rest := by
  generalize hn : ts.length = n
  induction n using Nat.strongRecOn generalizing s ts with
  | _ n ih =>
    cases ts with
    | nil =>
      obtain ⟨rfl, rfl⟩ := returns_iterate_nil.1 h
      exact hfinish s hs
    | cons t ts =>
      obtain ⟨hfirst, x, mid, hround, hmore⟩ := returns_iterate_cons.1 h
      have hx := hstep s t ts x mid hs hfirst hround
      cases x with
      | inr b =>
        obtain ⟨rfl, rfl⟩ := returns_pure.1 hmore
        exact hx
      | inl s' =>
        have hlength := hround.suffix.length_le
        exact ih mid.length (by simp at hn; omega) hx hmore rfl

end PackageDoc.Parser
