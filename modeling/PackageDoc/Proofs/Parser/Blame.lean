/-
  What an error is about.

  A parser stops with a fault of the scanner that it comes to, or at a token that
  it has come to and that is not the one to stand there (`Blames`).  All
  productions follow this law, so the line of an error is the line of an offset
  where something is wrong with the source (`Offends`).

  Main statement: `parse_error_line`.
-/
import PackageDoc.Proofs.Parser.Ensures
import PackageDoc.Proofs.Parser.Laws
import PackageDoc.Proofs.Parser.Shift
import PackageDoc.Proofs.Token.Lines

namespace PackageDoc

open Text

/-- A fault that is found at the token `t`. -/
def ParseFault.Concerns (t : Token) : ParseFault → Prop
  | unexpectedToken expected found => t.kind = found ∧ found ≠ expected
  | packageNameMismatch expected => t.kind = .ident ∧ t.lexeme ≠ expected
  | emptyFileName | lexical _ => False

namespace Parser

variable {α : Type} {i : Input} {ts mid : List DocToken}

/-! ## The law of errors -/

/-- With `ts` left to be read, a parser stops with a fault of the scanner, or at a
    token that it can come to. -/
inductive Blames (i : Input) (ts : List DocToken) : ParseError → Prop where
  | scan {e : ScanError} : i.fault? = some e → Blames i ts (i.scanError e)
  | token {us : List DocToken} {fault : ParseFault} : us <:+ ts → Reaches i ts us →
      fault.Concerns (i.current us).token → Blames i ts (i.errorAt (i.current us).line fault)

/-- An outcome where `ts` were left to be read: a move, or an error that is
    accounted for. -/
def Accounted (i : Input) (ts : List DocToken) : Except ParseError (α × List DocToken) → Prop
  | .ok (_, rest) => rest <:+ ts ∧ Reaches i ts rest
  | .error e => Blames i ts e

/-- Every outcome of the parser is accounted for. -/
def Accounts (i : Input) (p : Parser α) : Prop := ∀ ts, Accounted i ts (p.outcome i ts)

theorem Blames.trans {e : ParseError} (hsuffix : mid <:+ ts) (hreaches : Reaches i ts mid)
    (h : Blames i mid e) : Blames i ts e := by
  cases h with
  | scan hfault => exact .scan hfault
  | token hus hmove hconcerns => exact .token (hus.trans hsuffix) (hreaches.trans hmove) hconcerns

theorem Accounted.trans (hsuffix : mid <:+ ts) (hreaches : Reaches i ts mid)
    {x : Except ParseError (α × List DocToken)} (h : Accounted i mid x) : Accounted i ts x := by
  cases x with
  | error e => exact Blames.trans hsuffix hreaches h
  | ok x => exact ⟨h.1.trans hsuffix, hreaches.trans h.2⟩

theorem Accounted.here (i : Input) (ts : List DocToken) (a : α) :
    Accounted i ts (.ok (a, ts)) :=
  ⟨List.suffix_refl ts, .refl i ts⟩

/-- What is not the token to stand here is the current one. -/
theorem Accounted.failed {fault : ParseFault} (h : fault.Concerns (i.current ts).token) :
    Accounted (α := α) i ts (.error (i.errorAt (i.current ts).line fault)) :=
  .token (List.suffix_refl ts) (.refl i ts) h

/-- A sequence, where the first parser returns. -/
theorem Accounted.bind {β : Type} {p : Parser α} {f : α → Parser β}
    (hp : Accounted i ts (p.outcome i ts))
    (hf : ∀ a mid, Returns p i ts a mid → Accounted i mid ((f a).outcome i mid)) :
    Accounted i ts ((p >>= f).outcome i ts) := by
  rw [outcome_bind]
  cases h : p.outcome i ts with
  | error e =>
    rw [h] at hp
    exact hp
  | ok x =>
    rw [h] at hp
    exact (hf x.1 x.2 h).trans hp.1 hp.2

theorem Accounts.bind {β : Type} {p : Parser α} {f : α → Parser β} (hp : Accounts i p)
    (hf : ∀ a, Accounts i (f a)) : Accounts i (p >>= f) :=
  fun ts => (hp ts).bind fun a mid _ => hf a mid

theorem accounted_arrive {passed rest : List DocToken} (hts : passed ++ rest = ts) :
    Accounted i ts (arrive i passed rest).outcome := by
  cases h : (arrive i passed rest).outcome with
  | ok x =>
    obtain ⟨passed', rest'⟩ := x
    obtain ⟨-, rfl, hreaches⟩ := arrive_eq_ok.1 h
    refine ⟨⟨passed, hts⟩, fun hne hnil => hreaches (fun hpassed => hne ?_) hnil⟩
    rw [← hts, hpassed, hnil, List.nil_append]
  | error e =>
    unfold arrive at h
    split at h
    · cases hfault : i.fault? with
      | none => simp [hfault] at h
      | some s =>
        simp only [hfault, Except.error.injEq] at h
        rw [← h]
        exact .scan hfault
    · cases h

theorem accounts_advance : Accounts i advance := by
  intro ts
  cases ts with
  | nil => exact .here i [] ()
  | cons t ts =>
    have harrive : Accounted i (t :: ts) (arrive i [t] ts).outcome := accounted_arrive rfl
    simp only [outcome, advance]
    generalize arrive i [t] ts = r at harrive ⊢
    obtain ⟨events, e | ⟨passed, rest⟩⟩ := r
    · exact harrive
    · exact harrive

theorem accounts_require (kind : TokenKind) : Accounts i (require kind) := by
  intro ts
  have houtcome : (require kind).outcome i ts = if (i.current ts).kind = kind then .ok ((), ts)
      else .error (i.errorAt (i.current ts).line (.unexpectedToken kind (i.current ts).kind)) := by
    rw [require, outcome_bind]
    show Parser.outcome (if _ then _ else _) i ts = _
    split <;> rfl
  rw [houtcome]
  split
  · exact .here i ts ()
  · rename_i hkind
    exact .failed ⟨rfl, hkind⟩

theorem accounts_packageEnd (x : Ident) : Accounts i (packageEnd x) := by
  refine Accounts.bind (fun ts => .here i ts _) fun d => accounts_advance.bind fun _ ts => ?_
  -- behind `end`, another name than that of the package is at fault
  rw [outcome_bind]
  show Accounted i ts (Parser.outcome (if _ then if _ then _ else _ else _) i ts)
  split
  · rename_i hident
    split
    · exact .here i ts _
    · rename_i hname
      exact .failed ⟨hident, fun h => hname (beq_iff_eq.2 h)⟩
  · exact .here i ts _

/-- A loop accounts for its outcomes if its rounds do.  The induction is on the
    number of tokens that are left to be read. -/
theorem Accounts.iterate {σ : Type} {step : σ → Parser (σ ⊕ α)} {finish : σ → α}
    (h : ∀ s, Accounts i (step s)) (s : σ) : Accounts i (Parser.iterate step finish s) := by
  intro ts
  generalize hn : ts.length = n
  induction n using Nat.strongRecOn generalizing s ts with
  | _ n ih =>
    cases ts with
    | nil =>
      rw [outcome_iterate_nil]
      exact .here i [] _
    | cons t ts =>
      rw [outcome_iterate_cons]
      refine (accounts_advance (t :: ts)).bind fun _ mid hfirst => ?_
      refine (h s mid).bind fun x mid' hround => ?_
      cases x with
      | inr a => exact .here i mid' a
      | inl s' =>
        obtain ⟨rfl, -⟩ := returns_advance.1 hfirst
        have hlength := hround.suffix.length_le
        simp only [List.length_cons] at hlength hn
        exact ih mid'.length (by omega) s' mid' rfl

/-- Errors are accounted for by every production. -/
theorem law_accounts (i : Input) : Law fun {_} p => Accounts i p where
  pure a ts := .here i ts a
  bind := Accounts.bind
  iterate := Accounts.iterate
  current ts := .here i ts _
  atEnd ts := .here i ts _
  input ts := .here i ts _
  log _ _ ts := .here i ts _
  advance := accounts_advance
  passTo _ hf ts := accounted_arrive (hf ts)
  require := accounts_require
  packageEnd := accounts_packageEnd

end Parser

/-! ## Lines -/

/-- The line of a token is that of its offset. -/
theorem line_attachFrom (lines : LineTable) (eof : Token) (previous : Option Nat)
    (skipped ts : List Token) :
    (∀ d ∈ (attachFrom lines eof previous skipped ts).1, d.line = lines.line d.token.pos) ∧
      (attachFrom lines eof previous skipped ts).2.line = lines.line eof.pos := by
  obtain ⟨hds, previous', skipped', heof⟩ := exists_docToken lines eof previous skipped ts
  refine ⟨fun d hd => ?_, by rw [heof, docToken]⟩
  obtain ⟨previous', skipped', t, rfl⟩ := hds d hd
  rfl

/-- What is passed over at the end of a scan stands in the text. -/
theorem Scanner.Stops.passed_append {o : Nat} {cs passed : List Char}
    {ending : Except ScanError Token} (h : Stops o cs ending passed) :
    ∃ back, cs = passed ++ back := by
  cases h with
  | eof hgap => exact ⟨[], by simp⟩
  | @fault gap cs piece back fault hgap hhead hreading =>
    have happend := reading_append cs
    rw [hreading] at happend
    exact ⟨back, by simp [← happend, Reading.pieces]⟩

/-- The table of a text gives the lines of its tokens, and that of its end or of
    its fault. -/
theorem line_scanText (text : List Char) {t : Token}
    (ht : t = lastToken (scanText text).ending ∨ t ∈ (scanText text).tokens) :
    (scanText text).lines.line t.pos = lineAt text.utf8Encode t.pos := by
  obtain ⟨used, rest, passed, htext, hscans, hstops⟩ := scans_of_scanText text
  have hlines := congrArg Scan.lines (scanText_eq hscans hstops)
  obtain ⟨read, more, hsplit, hpos⟩ := hscans.read_split hstops ht
  obtain ⟨back, rfl⟩ := hstops.passed_append
  rw [← htext] at hlines
  rw [hlines, htext, ← List.append_assoc]
  refine (LineTable.exactAt_addLines (used ++ passed) back ?_).line
  rw [hsplit, hpos, byteLength_append]
  exact Nat.le_add_right _ _

/-! ## Errors of a text -/

/-- An error comes from the scanner, or from a token or the end of the input. -/
theorem Input.blames_of_parse {i : Input} {e : ParseError} (h : i.parse.result = .error e) :
    (∃ s, i.fault? = some s ∧ e = i.scanError s) ∨
      ∃ d fault, (d ∈ i.tokens ∨ d = i.eof ∧ i.fault? = none) ∧
        e = i.errorAt d.line fault ∧ fault.Concerns d.token := by
  by_cases hstart : i.tokens = [] → i.fault? = none
  · have hlaw := (Parser.law_accounts i).packages i.tokens
    rw [Input.parse_result hstart] at h
    cases houtcome : Parser.packages.outcome i i.tokens with
    | ok x =>
      rw [houtcome] at h
      cases h
    | error e' =>
      rw [houtcome] at h hlaw
      cases h
      cases hlaw with
      | scan hfault => exact .inl ⟨_, hfault, rfl⟩
      | @token us fault hsuffix hreaches hconcerns =>
        refine .inr ⟨_, fault, ?_, rfl, hconcerns⟩
        cases us with
        | nil =>
          refine .inr ⟨rfl, ?_⟩
          by_cases htokens : i.tokens = []
          · exact hstart htokens
          · exact hreaches htokens rfl
        | cons d us => exact .inl (hsuffix.subset (by simp [Input.current]))
  · obtain ⟨hnil, hfault⟩ := Classical.not_imp.1 hstart
    obtain ⟨s, hs⟩ := Option.ne_none_iff_exists'.1 hfault
    simp only [Input.parse, hnil, hs, Except.error.injEq] at h
    exact .inl ⟨s, hs, h.symm⟩

/-- **The errors of a text**: the fault of its scan, or a token that is not the one
    to stand there, with its line. -/
theorem error_ofText {file : String} {text : List Char} {e : ParseError}
    (h : (Input.ofText file text).parse.result = .error e) :
    (∃ s, (scanText text).ending = .error s ∧
        e = ⟨file, lineAt text.utf8Encode s.pos, .lexical s.fault⟩) ∨
      ∃ t fault, (t ∈ (scanText text).tokens ∧ t.kind ≠ .comment ∨
          (scanText text).ending = .ok t) ∧
        e = ⟨file, lineAt text.utf8Encode t.pos, fault⟩ ∧ fault.Concerns t := by
  have hattached := attached_ofText file text
  have hlines := line_attachFrom (scanText text).lines (lastToken (scanText text).ending) none []
    (scanText text).tokens
  rw [← hattached] at hlines
  obtain ⟨hline, hlast⟩ := hlines
  have hscanned := Input.scanned_ofText file text
  rcases Input.blames_of_parse h with ⟨s, hs, rfl⟩ | ⟨d, fault, hd | ⟨rfl, hfault⟩, rfl, hconcerns⟩
  · left
    have hending : (scanText text).ending = .error s := by
      cases hend : (scanText text).ending with
      | ok t => simp [Input.ofText, hend] at hs
      | error s' => simpa [Input.ofText, hend] using hs
    refine ⟨s, hending, ?_⟩
    have hpos := line_scanText text (.inl rfl)
    rw [hending] at hpos
    exact congrArg (ParseError.mk file · (.lexical s.fault)) hpos
  · right
    have hmem : d.token ∈ (scanText text).tokens := by
      rw [← Input.raw_ofText file text]
      exact Input.Scanned.mem_raw hd
    refine ⟨d.token, fault, .inl ⟨hmem, hscanned.plain d hd⟩, ?_, hconcerns⟩
    rw [← line_scanText text (.inr hmem), ← hline d hd]
    rfl
  · right
    obtain ⟨t, ht⟩ := Input.ending_of_fault? file hfault
    have heof := Input.token_eof_ofText file ht
    rw [heof] at hconcerns
    refine ⟨t, fault, .inr ht, ?_, hconcerns⟩
    rw [← line_scanText text (.inl (by rw [ht]; rfl)), hlast, ht]
    rfl

/-! ## Sources -/

/-- The tokens of a source up to its end or to the first fault. -/
def scannedTokens (source : ByteArray) : List Token :=
  match readSource source with
  | .error _ => []
  | .ok text => (scanText text).tokens

theorem scannedTokens_utf8Encode {text : List Char} (h : byteLength text ≤ maxOffset) :
    scannedTokens text.utf8Encode = (scanText text).tokens := by
  rw [scannedTokens, readSource_utf8Encode h]

/-- In a source, `mark` stands at the offset `pos` and `back` behind it; in front of
    it are the tokens that can be scanned. -/
def StandsAt (source : ByteArray) (pos : Nat) (mark back : List Char) : Prop :=
  ∃ front, source = (front ++ mark ++ back).utf8Encode ∧ pos = byteLength front ∧
    tokens? front.utf8Encode = some (scannedTokens source)

/-- What a fault is about stands at the offset `pos` of the source. -/
def Offends (source : ByteArray) (pos : Nat) : ParseFault → Prop
  | .lexical .tooLarge => maxOffset < source.size ∧ pos = 0
  | .lexical .invalidUtf8 => IllFormedAt source pos
  | .lexical .loneBar => ∃ back, StandsAt source pos ['|'] back ∧ back.head? ≠ some '|'
  | .lexical .unterminatedComment =>
    ∃ back, StandsAt source pos ['/', '*'] back ∧ ¬ ['*', '/'] <:+: back
  | .unexpectedToken expected found => found ≠ expected ∧
    ((∃ t ∈ scannedTokens source, t.kind ≠ .comment ∧ t.kind = found ∧ t.pos = pos) ∨
      found = .eof ∧ pos = source.size ∧ tokens? source = some (scannedTokens source))
  | .packageNameMismatch expected =>
    ∃ t ∈ scannedTokens source, t.kind = .ident ∧ t.lexeme ≠ expected ∧ t.pos = pos
  | .emptyFileName => False

theorem offends_of_readSource {source : ByteArray} {e : ScanError}
    (h : readSource source = .error e) : Offends source e.pos (.lexical e.fault) := by
  rcases readSource_eq_error h with ⟨hlarge, rfl⟩ | ⟨-, pos, hdecode, rfl⟩
  · exact ⟨hlarge, rfl⟩
  · exact illFormedAt_of_decode hdecode

theorem not_infix_of_splitComment? {cs : List Char} (h : splitComment? cs = none) :
    ¬ ['*', '/'] <:+: cs := by
  fun_induction splitComment? cs with
  | case1 => simp
  | case2 cs => cases h
  | case3 c cs hclose ih =>
    rw [Option.map_eq_none_iff] at h
    rw [List.infix_cons_iff, not_or]
    refine ⟨?_, ih h⟩
    rintro ⟨back, hback⟩
    simp only [List.cons_append, List.nil_append, List.cons.injEq] at hback
    exact hclose back hback.1.symm hback.2.symm

/-- The tokens before a fault are those of the text before it. -/
theorem fault_of_scanText {text : List Char} {e : ScanError}
    (h : (scanText text).ending = .error e) (hsize : byteLength text ≤ maxOffset) :
    ∃ front cs piece rest, text = front ++ cs ∧ e.pos = byteLength front ∧
      reading cs = .fault e.fault piece rest ∧
      tokens? front.utf8Encode = some (scanText text).tokens := by
  obtain ⟨used, rest, passed, htext, hscans, hstops⟩ := scans_of_scanText text
  rw [h] at hstops
  cases hstops with
  | @fault gap cs piece back fault hgap hhead hreading =>
    refine ⟨used ++ gap, cs, piece, back, by simpa using htext, by simp, hreading, ?_⟩
    rw [← List.append_assoc] at hscans
    have hfront : Scans 0 (used ++ gap) (scanText text).tokens gap := hscans.cut
    have hshorter : byteLength (used ++ gap) ≤ maxOffset := by
      rw [htext] at hsize
      simp only [byteLength_append] at hsize ⊢
      omega
    obtain ⟨ts, hts, htokens⟩ := tokens?_of_scans hfront hgap hshorter
    have hshift : (fun t : Token => t.shift 0) = id := rfl
    rw [hshift, List.map_id] at hts
    rw [hts]
    exact htokens

theorem end_of_scanText {text : List Char} {t : Token} (h : (scanText text).ending = .ok t) :
    t = Scanner.endToken (byteLength text) := by
  obtain ⟨used, rest, passed, htext, -, hstops⟩ := scans_of_scanText text
  rw [h] at hstops
  cases hstops
  simp [htext]

theorem offends_lexical {text : List Char} {e : ScanError}
    (h : (scanText text).ending = .error e) (hsize : byteLength text ≤ maxOffset) :
    Offends text.utf8Encode e.pos (.lexical e.fault) := by
  obtain ⟨front, cs, piece, rest, rfl, hpos, hreading, htokens⟩ := fault_of_scanText h hsize
  rw [← scannedTokens_utf8Encode hsize] at htokens
  rcases reading_eq_fault hreading with ⟨hfault, back, rfl, hback⟩ | ⟨hfault, back, rfl, hback⟩
  · rw [hfault]
    exact ⟨back, ⟨front, by simp, hpos, htokens⟩, hback⟩
  · rw [hfault]
    exact ⟨back, ⟨front, by simp, hpos, htokens⟩, not_infix_of_splitComment? hback⟩

theorem offends_token {text : List Char} {t : Token} {fault : ParseFault}
    (ht : t ∈ (scanText text).tokens ∧ t.kind ≠ .comment ∨ (scanText text).ending = .ok t)
    (h : fault.Concerns t) (hsize : byteLength text ≤ maxOffset) :
    Offends text.utf8Encode t.pos fault := by
  have htokens := scannedTokens_utf8Encode hsize
  rcases ht with ⟨hmem, hcomment⟩ | hend
  · rw [← htokens] at hmem
    cases fault with
    | unexpectedToken expected found => exact ⟨h.2, .inl ⟨t, hmem, hcomment, h.1, rfl⟩⟩
    | packageNameMismatch expected => exact ⟨t, hmem, h.1, h.2, rfl⟩
    | emptyFileName => cases h
    | lexical fault => cases h
  · obtain rfl := end_of_scanText hend
    cases fault with
    | unexpectedToken expected found =>
      refine ⟨h.2, .inr ⟨h.1.symm, by rw [size_utf8Encode]; rfl, ?_⟩⟩
      exact tokens?_eq_some.2 ⟨text, readSource_utf8Encode hsize, htokens.symm, _, hend⟩
    | packageNameMismatch expected => cases h.1
    | emptyFileName => cases h
    | lexical fault => cases h

/-- **The line of an error is right.**  It is the line of an offset where what the
    error is about stands; an error about the name of the file has the line 0. -/
theorem parse_error_line {file : String} {source : ByteArray} {e : ParseError}
    (h : (parse file source).result = .error e) :
    e.file = file ∧ (file = "" → e.fault = .emptyFileName ∧ e.line = 0) ∧
      (file ≠ "" → ∃ pos, e.line = lineAt source pos ∧ Offends source pos e.fault) := by
  by_cases hfile : file = ""
  · subst hfile
    cases h
    exact ⟨rfl, fun _ => ⟨rfl, rfl⟩, fun hne => absurd rfl hne⟩
  · cases hread : readSource source with
    | error s =>
      rw [parse_of_error hfile hread] at h
      cases h
      exact ⟨rfl, fun hnil => absurd hnil hfile, fun _ => ⟨s.pos, rfl, offends_of_readSource hread⟩⟩
    | ok text =>
      rw [parse_of_ok hfile hread] at h
      obtain ⟨hsize, rfl⟩ := readSource_eq_ok_iff.1 hread
      rw [size_utf8Encode] at hsize
      rcases error_ofText h with ⟨s, hs, rfl⟩ | ⟨t, fault, ht, rfl, hconcerns⟩
      · exact ⟨rfl, fun hnil => absurd hnil hfile, fun _ => ⟨s.pos, rfl, offends_lexical hs hsize⟩⟩
      · exact ⟨rfl, fun hnil => absurd hnil hfile,
          fun _ => ⟨t.pos, rfl, offends_token ht hconcerns hsize⟩⟩

/-- A source with line feeds in a string and in comments before a wrong name. -/
def mismatchSource : ByteArray :=
  "-- d\n'\n'\ncreate package p is\n/* é\n*/ end q;".toUTF8

theorem parse_error_line_mismatch :
    (parse "x.pks" mismatchSource).result = .error ⟨"x.pks", 6, .packageNameMismatch "p"⟩ ∧
      ∃ pos, 6 = lineAt mismatchSource pos ∧
        Offends mismatchSource pos (.packageNameMismatch "p") := by
  have hparse : (parse "x.pks" mismatchSource).result =
      .error ⟨"x.pks", 6, .packageNameMismatch "p"⟩ := by decide +kernel
  obtain ⟨-, -, hline⟩ := parse_error_line hparse
  exact ⟨hparse, hline (by decide)⟩

end PackageDoc
