/-
  Parsers.

  A parser works on the tokens of a source that are still to be read.  The first
  of them is the current token; when none is left the current token is the end
  of the input, and a fault of the scanner shows when a parser would get there.
  What a parser leaves is a suffix of what it was given: this law is part of a
  parser, so that a loop of parsers ends because it moves on (`iterate`).

  A parser logs the tokens that it moves to and whatever else it reports.
-/
import PackageDoc.Comment.Attribution
import PackageDoc.Decl.Field
import PackageDoc.Event
import PackageDoc.ParseError
import PackageDoc.Token.Scanner

namespace PackageDoc

/-! ## The input -/

/-- A scanned source: its tokens with their comments, and how they end. -/
structure Input where
  file : String
  text : List Char
  lines : LineTable
  tokens : List DocToken
  /-- the end of the input, with the comments before it -/
  eof : DocToken
  /-- the fault that keeps the end of the input from being reached -/
  fault? : Option ScanError

/-- The input that a text gives. -/
def Input.ofText (file : String) (text : List Char) : Input :=
  let scan := scanText text
  let (eof, fault?) := match scan.ending with
    | .ok t => (t, none)
    | .error e => (⟨.eof, "", e.pos, e.pos⟩, some e)
  let (tokens, eof) := attachComments scan.lines scan.tokens eof
  { file, text, lines := scan.lines, tokens, eof, fault? }

namespace Input

/-- The current token where `ts` are left. -/
def current (i : Input) (ts : List DocToken) : DocToken := ts.headD i.eof

/-- The event of a token. -/
def tokenEvent (i : Input) (t : Token) : Event := .token t (i.lines.position i.file t.pos)

/-- The events of moving to a token: the comments before it and the token. -/
def arrival (i : Input) (t : DocToken) : List Event := (t.skipped ++ [t.token]).map i.tokenEvent

/-- The events of moving to the end of the input. -/
def endArrival (i : Input) : List Event :=
  if i.fault?.isSome then i.eof.skipped.map i.tokenEvent else i.arrival i.eof

/-- An error at a line of the input. -/
def errorAt (i : Input) (line : Nat) (fault : ParseFault) : ParseError := ⟨i.file, line, fault⟩

/-- A fault of the scanner as an error. -/
def scanError (i : Input) (e : ScanError) : ParseError :=
  i.errorAt (i.lines.line e.pos) (.lexical e.fault)

end Input

/-! ## Parsers -/

/-- What a parser does: the events that it logs, and its result with the tokens
    that it leaves, or the error that stops it. -/
structure Run (α : Type) where
  events : List Event
  outcome : Except ParseError (α × List DocToken)

/-- A parser leaves a suffix of the tokens that it is given. -/
structure Parser (α : Type) where
  run : Input → List DocToken → Run α
  suffix : ∀ {i ts a rest}, (run i ts).outcome = .ok (a, rest) → rest <:+ ts

namespace Parser

variable {α β σ : Type}

/-- Reads nothing. -/
protected def pure (a : α) : Parser α where
  run _ ts := ⟨[], .ok (a, ts)⟩
  suffix h := by cases h; exact List.suffix_refl _

/-- Runs a parser and then the one that its result selects. -/
protected def bind (p : Parser α) (f : α → Parser β) : Parser β where
  run i ts :=
    match p.run i ts with
    | ⟨events, .error e⟩ => ⟨events, .error e⟩
    | ⟨events, .ok (a, rest)⟩ =>
      let next := (f a).run i rest
      ⟨events ++ next.events, next.outcome⟩
  suffix {i ts b rest} h := by
    split at h
    · simp at h
    · rename_i hp
      exact ((f _).suffix h).trans (p.suffix (by rw [hp]))

instance : Monad Parser where
  pure := Parser.pure
  bind := Parser.bind

/-- The current token. -/
def current : Parser DocToken where
  run i ts := ⟨[], .ok (i.current ts, ts)⟩
  suffix h := by cases h; exact List.suffix_refl _

/-- Whether the end of the input is reached. -/
def atEnd : Parser Bool where
  run _ ts := ⟨[], .ok (ts.isEmpty, ts)⟩
  suffix h := by cases h; exact List.suffix_refl _

/-- The input as a whole. -/
def input : Parser Input where
  run i ts := ⟨[], .ok (i, ts)⟩
  suffix h := by cases h; exact List.suffix_refl _

/-- Logs an event. -/
def log (e : Event) : Parser Unit where
  run _ ts := ⟨[e], .ok ((), ts)⟩
  suffix h := by cases h; exact List.suffix_refl _

/-- Stops with a fault at the current token. -/
def fail (fault : ParseFault) : Parser α where
  run i ts := ⟨[], .error (i.errorAt (i.current ts).line fault)⟩
  suffix h := by simp at h

/-- Moves over the tokens `passed` to the first of `rest`, and gives the tokens
    passed over.  The tokens arrived at are all but the first of them and the
    one where the move ends. -/
def arrive (i : Input) (passed rest : List DocToken) : Run (List DocToken) :=
  let arrivals := ((passed ++ rest.head?.toList).drop 1).flatMap i.arrival
  if rest.isEmpty && !passed.isEmpty then
    ⟨arrivals ++ i.endArrival,
      match i.fault? with
      | some e => .error (i.scanError e)
      | none => .ok (passed, rest)⟩
  else ⟨arrivals, .ok (passed, rest)⟩

theorem arrive_ok {i : Input} {passed rest passed' rest' : List DocToken}
    (h : (arrive i passed rest).outcome = .ok (passed', rest')) :
    passed' = passed ∧ rest' = rest := by
  unfold arrive at h
  split at h
  · simp only at h
    split at h <;> simp_all
  · simp_all

/-- Splits the tokens with `f`, moves over the first part and gives it. -/
def passTo (f : List DocToken → List DocToken × List DocToken)
    (hf : ∀ ts, (f ts).1 ++ (f ts).2 = ts) : Parser (List DocToken) where
  run i ts := arrive i (f ts).1 (f ts).2
  suffix h := by rw [(arrive_ok h).2]; exact ⟨_, hf _⟩

/-- Moves to the first token that `stop` accepts, or to the end of the input,
    and gives the tokens passed over. -/
def takeTo (stop : DocToken → Bool) : Parser (List DocToken) :=
  passTo (fun ts => (ts.takeWhile (!stop ·), ts.dropWhile (!stop ·))) fun _ =>
    List.takeWhile_append_dropWhile

/-- Moves to the first token of a kind, or to the end of the input. -/
def skipTo (kind : TokenKind) : Parser Unit := do
  let _ ← takeTo (·.kind = kind)

/-- Moves to the next token.  At the end of the input, that is read once
    more. -/
def advance : Parser Unit where
  run i ts :=
    match ts with
    | [] => ⟨[i.tokenEvent i.eof.token], .ok ((), [])⟩
    | t :: rest =>
      match arrive i [t] rest with
      | ⟨events, .ok (_, rest)⟩ => ⟨events, .ok ((), rest)⟩
      | ⟨events, .error e⟩ => ⟨events, .error e⟩
  suffix {i ts a rest} h := by
    split at h
    · cases h; exact List.suffix_refl _
    · split at h
      · rename_i hm
        have := (arrive_ok (by rw [hm])).2
        simp only [Except.ok.injEq, Prod.mk.injEq] at h
        rw [← h.2, this]
        exact List.suffix_cons _ _
      · simp at h

theorem advance_rest {i : Input} {t : DocToken} {ts rest : List DocToken}
    (h : (advance.run i (t :: ts)).outcome = .ok ((), rest)) : rest = ts := by
  simp only [advance] at h
  split at h
  · rename_i hm
    have := (arrive_ok (by rw [hm])).2
    simp_all
  · simp at h

/-- Runs `step` behind the current token, and again behind the token where it
    stops, until it has a result; at the end of the input, `finish` gives it. -/
def iterateRun (step : σ → Parser (σ ⊕ α)) (finish : σ → α) (s : σ) (i : Input) :
    List DocToken → Run α
  | [] => ⟨[], .ok (finish s, [])⟩
  | t :: ts =>
    match h : (advance.run i (t :: ts)) with
    | ⟨events, .error e⟩ => ⟨events, .error e⟩
    | ⟨events, .ok ((), rest)⟩ =>
      match h' : (step s).run i rest with
      | ⟨events', .error e⟩ => ⟨events ++ events', .error e⟩
      | ⟨events', .ok (.inr a, rest')⟩ => ⟨events ++ events', .ok (a, rest')⟩
      | ⟨events', .ok (.inl s', rest')⟩ =>
        have : rest'.length < (t :: ts).length := by
          have h₁ := ((step s).suffix (by rw [h'])).length_le
          have h₂ := advance_rest (by rw [h])
          subst h₂
          simp only [List.length_cons]
          omega
        let more := iterateRun step finish s' i rest'
        ⟨events ++ events' ++ more.events, more.outcome⟩
termination_by ts => ts.length
decreasing_by exact this

theorem iterateRun_suffix (step : σ → Parser (σ ⊕ α)) (finish : σ → α) (s : σ) (i : Input)
    (ts : List DocToken) {a : α} {rest : List DocToken}
    (h : (iterateRun step finish s i ts).outcome = .ok (a, rest)) : rest <:+ ts := by
  fun_induction iterateRun step finish s i ts with
  | case1 => cases h; exact List.suffix_refl _
  | case2 => simp at h
  | case3 => simp at h
  | case4 s t ts events rest' h₁ events' b rest'' h₂ =>
    cases h
    exact ((step s).suffix (by rw [h₂])).trans (advance.suffix (by rw [h₁]))
  | case5 s t ts events rest' h₁ events' s' rest'' h₂ _ _ ih =>
    exact (ih h).trans (((step s).suffix (by rw [h₂])).trans (advance.suffix (by rw [h₁])))

/-- Runs `step` again and again, each time behind the current token, until it
    has a result; at the end of the input, `finish` gives it. -/
def iterate (step : σ → Parser (σ ⊕ α)) (finish : σ → α) (s : σ) : Parser α where
  run i ts := iterateRun step finish s i ts
  suffix h := iterateRun_suffix step finish s _ _ h

/-! ## Single tokens -/

/-- Whether the current token is of a kind. -/
def isAt (kind : TokenKind) : Parser Bool := do
  return (← current).kind = kind

/-- Fails unless the current token is of a kind. -/
def require (kind : TokenKind) : Parser Unit := do
  let t ← current
  if t.kind = kind then return ()
  else fail (.unexpectedToken kind t.kind)

/-- The current token as a name. -/
def name : Parser Ident := do
  require .ident
  let t ← current
  return ⟨t.lexeme, t.span⟩

/-- The next token as a name. -/
def nextName : Parser Ident := do
  advance
  name

end Parser

end PackageDoc
