/-
  Declarations and semicolons.

  A declaration ends before its semicolon, but its parser does not look for one
  everywhere: between the parentheses of a list it looks for commas and the closing
  parenthesis, behind `table` and `varray` for the word `of`, and behind the
  signature of a cursor for the word `is`.  These are the stretches of a declaration
  (`Item.stretches`).  A semicolon behind the token that introduces a declaration
  stands before the end of the declaration only if it stands in one of its
  stretches (`parse_semicolons`).

  Where a parser moves from one place to another, `Passes` keeps the spans that hold
  the semicolons on the way; `Confined` tells where the semicolons before an offset
  are.
-/
import PackageDoc.Proofs.Parser.Closing
import PackageDoc.Proofs.Parser.Spans

namespace PackageDoc

open Text

/-! ## Stretches -/

/-- From the opening parenthesis of a list to the closing one. -/
def FieldList.inner (l : FieldList) : Span := ⟨l.opening, l.closing⟩

/-- The parts of a declaration in which its parser does not stop at a semicolon. -/
def Item.stretches : Item → List Span
  | field _ | subtype _ => []
  | routine r => r.params.toList.map FieldList.inner
  | cursor c => c.params.toList.map FieldList.inner ++ [⟨c.signatureStop, c.sql.start⟩]
  | type t =>
    match t.body with
    | .table element | .varray _ element => [⟨t.name.span.stop, element.span.start⟩]
    | .record fields => [fields.inner]
    | .refCursor _ => []

/-- A token that stands in a span. -/
def Token.Within (t : Token) (s : Span) : Prop := s.start ≤ t.span.start ∧ t.span.stop ≤ s.stop

section
variable (raw : List Token) (t : Token)

/-- The token is the word before a name. -/
def Introduces (word : Keyword) (name : Ident) : Prop :=
  ∃ before between n after, raw = before ++ t :: between ++ n :: after ∧ t.kind = .keyword word ∧
    (∀ c ∈ between, c.kind = .comment) ∧ n.kind = .ident ∧ name = ⟨n.lexeme, n.span⟩

/-- The token that a declaration starts with: the word before its name, or the name of
    a variable, a constant or an exception. -/
def Item.IntroducedBy : Item → Prop
  | field f => t ∈ raw ∧ t.kind = .ident ∧ f.name = ⟨t.lexeme, t.span⟩
  | subtype s => Introduces raw t .subtype s.name
  | routine r => Introduces raw t r.kind.keyword r.name
  | cursor c => Introduces raw t .cursor c.name
  | type d => Introduces raw t .type d.name

end

namespace Parser

variable {i : Input} {ts us mid rest : List DocToken} {gs : List Span} {n m : Nat}

/-! ## Places -/

/-- What is passed ends before the place that the parser comes to. -/
theorem stop_le_current (hi : i.Scanned) (hfault : i.fault? = none) {before : List DocToken}
    (h : before ++ ts = i.tokens) {s : DocToken} (hs : s ∈ before) :
    s.span.stop ≤ (i.current ts).span.start := by
  cases ts with
  | nil =>
    obtain ⟨rest, hscans, -⟩ := hi.scans
    have hle := hscans.stop_le (Input.Scanned.mem_raw (d := s) (by simp [← h, hs]))
    rw [Input.current, List.headD_nil, DocToken.span, DocToken.span, hi.eof hfault]
    show s.token.span.stop ≤ byteLength i.text
    omega
  | cons t after =>
    obtain ⟨front, back, rfl⟩ := List.append_of_mem hs
    have hsplit : front ++ s :: (back ++ t :: after) = i.tokens := by simpa using h
    exact (hi.order_at hsplit).2.2 t (by simp)

theorem current_le (hi : i.Scanned) (hts : ts <:+ i.tokens) {s : DocToken} (hs : s ∈ ts) :
    (i.current ts).span.start ≤ s.span.start := by
  obtain ⟨before, hbefore⟩ := hts
  cases ts with
  | nil => cases hs
  | cons t after =>
    obtain ⟨-, hlt, hafter⟩ := hi.order_at hbefore
    rcases List.mem_cons.1 hs with rfl | hs
    · exact Nat.le_refl _
    · have hle := hafter s hs
      exact Nat.le_trans (Nat.le_of_lt hlt) hle

/-! ## Semicolons on the way -/

/-- The semicolons on the way from `ts` to `mid` stand in the given spans. -/
def Passes (gs : List Span) (ts mid : List DocToken) : Prop :=
  ∃ passed, ts = passed ++ mid ∧
    ∀ s ∈ passed, s.kind = .op .semicolon → ∃ g ∈ gs, s.token.Within g

/-- The semicolons from `ts` on that start before the offset `n` stand in the given
    spans. -/
def Confined (gs : List Span) (ts : List DocToken) (n : Nat) : Prop :=
  ∀ s ∈ ts, s.kind = .op .semicolon → s.span.start < n → ∃ g ∈ gs, s.token.Within g

namespace Passes

theorem refl (gs : List Span) (ts : List DocToken) : Passes gs ts ts := ⟨[], rfl, by simp⟩

theorem trans (h : Passes gs ts mid) (h' : Passes gs mid rest) : Passes gs ts rest := by
  obtain ⟨passed, rfl, hpassed⟩ := h
  obtain ⟨passed', rfl, hpassed'⟩ := h'
  refine ⟨passed ++ passed', by simp, fun s hs hkind => ?_⟩
  rcases List.mem_append.1 hs with hs | hs
  · exact hpassed s hs hkind
  · exact hpassed' s hs hkind

theorem suffix (h : Passes gs ts mid) : mid <:+ ts := by
  obtain ⟨passed, rfl, -⟩ := h
  exact List.suffix_append _ _

/-- A token that is no semicolon. -/
theorem tail (hkind : (i.current ts).kind ≠ .op .semicolon) : Passes gs ts ts.tail := by
  cases ts with
  | nil => exact refl _ _
  | cons t us =>
    refine ⟨[t], rfl, fun s hs hs' => ?_⟩
    rw [List.mem_singleton.1 hs] at hs'
    exact absurd hs' hkind

/-- A move that stops at a semicolon. -/
theorem dropWhile {p : DocToken → Bool} (hp : ∀ d, p d = true → d.kind ≠ .op .semicolon) :
    Passes gs ts (ts.dropWhile p) :=
  ⟨ts.takeWhile p, List.takeWhile_append_dropWhile.symm,
    fun s hs hkind => absurd hkind (hp s (takeWhile_all s hs))⟩

/-- A way that lies in one of the spans as a whole. -/
theorem within (hi : i.Scanned) (hfault : i.fault? = none) (hts : ts <:+ i.tokens)
    (hmid : mid <:+ ts) {g : Span} (hg : g ∈ gs) (hstart : ∀ s ∈ ts, g.start ≤ s.span.start)
    (hstop : (i.current mid).span.start ≤ g.stop) : Passes gs ts mid := by
  obtain ⟨before, hbefore⟩ := hts
  obtain ⟨passed, rfl⟩ := hmid
  refine ⟨passed, rfl, fun s hs _ => ⟨g, hg, hstart s (by simp [hs]), ?_⟩⟩
  rw [← List.append_assoc] at hbefore
  have hle := stop_le_current hi hfault hbefore (s := s) (by simp [hs])
  exact Nat.le_trans hle hstop

theorem confined (h : Passes gs ts mid) (hmid : Confined gs mid n) : Confined gs ts n := by
  obtain ⟨passed, rfl, hpassed⟩ := h
  intro s hs hkind hlt
  rcases List.mem_append.1 hs with hs | hs
  · exact hpassed s hs hkind
  · exact hmid s hs hkind hlt

end Passes

namespace Confined

theorem max (h : Confined gs ts n) (h' : Confined gs ts m) : Confined gs ts (max n m) := by
  intro s hs hkind hlt
  rcases Nat.lt_or_ge s.span.start n with hn | hn
  · exact h s hs hkind hn
  · exact h' s hs hkind (by omega)

theorem of_le (h : ∀ s ∈ ts, n ≤ s.span.start) : Confined gs ts n :=
  fun s hs _ hlt => absurd (h s hs) (Nat.not_le.2 hlt)

theorem merge? {span : Span} {span? : Option Span} (h : Confined gs ts span.stop)
    (h' : ∀ t ∈ span?, Confined gs ts t.stop) : Confined gs ts (span.merge? span?).stop := by
  cases span? with
  | none => exact h
  | some t => exact h.max (h' t rfl)

/-- The text of tokens that were taken up to a semicolon. -/
theorem ofTokens? (hi : i.Scanned) (hts : ts <:+ i.tokens) {p : DocToken → Bool}
    (hp : ∀ d, p d = true → d.kind ≠ .op .semicolon) {xs : List DocToken}
    (hxs : xs <:+: ts.takeWhile p) {x : Ident} (hx : x ∈ Ident.ofTokens? (plainTokens xs)) :
    Confined gs ts x.span.stop := by
  refine (Passes.dropWhile hp).confined (of_le fun s hs => ?_)
  have hlt : ∀ d ∈ xs, d.span.start < d.span.stop ∧ d.span.stop ≤ s.span.start := by
    intro d hd
    obtain ⟨before, hbefore⟩ := hts
    obtain ⟨front, back, hsplit⟩ := List.append_of_mem (hxs.subset hd)
    have htaken : (front ++ d :: back) ++ ts.dropWhile p = ts := by
      rw [← hsplit]
      exact List.takeWhile_append_dropWhile
    have horder : (before ++ front) ++ d :: (back ++ ts.dropWhile p) = i.tokens := by
      rw [← hbefore]
      simpa using congrArg (before ++ ·) htaken
    obtain ⟨-, hlt, hafter⟩ := hi.order_at horder
    exact ⟨hlt, hafter s (by simp [hs])⟩
  unfold Ident.ofTokens? at hx
  split at hx
  · rename_i first last hfirst hlast
    obtain rfl := Option.some.inj hx
    obtain ⟨d, hd, rfl⟩ := List.mem_map.1 (List.mem_of_head? hfirst)
    obtain ⟨e, he, rfl⟩ := List.mem_map.1 (List.mem_of_getLast? hlast)
    have hd := hlt d hd
    have he := hlt e he
    simp only [DocToken.span] at hd he
    show Nat.max e.token.span.stop d.token.span.start ≤ s.token.span.start
    exact Nat.max_le.2 ⟨he.2, by omega⟩
  · cases hx

theorem ofTokens (hi : i.Scanned) (hts : ts <:+ i.tokens) {p : DocToken → Bool}
    (hp : ∀ d, p d = true → d.kind ≠ .op .semicolon) {xs : List DocToken}
    (hxs : xs <:+: ts.takeWhile p) :
    Confined gs ts (Ident.ofTokens (i.current ts).span.start (plainTokens xs)).span.stop := by
  unfold Ident.ofTokens
  cases hx : Ident.ofTokens? (plainTokens xs) with
  | none => exact of_le fun s hs => current_le hi hts hs
  | some x => exact ofTokens? hi hts hp hxs hx

end Confined

/-! ## Fields -/

/-- A variable, a constant or an exception ends before its semicolon. -/
theorem confined_variableField (hi : i.Scanned) {d : DocToken} (hts : d :: us <:+ i.tokens)
    {f : Field} (h : Returns variableField i (d :: us) f rest) :
    (Item.field f).IntroducedBy i.raw d.token ∧ Confined gs us f.span.stop := by
  obtain ⟨hkind, -, h⟩ := returns_variableField.1 h
  obtain ⟨before, hbefore⟩ := id hts
  have hd : d.token ∈ i.raw := Input.Scanned.mem_raw (by simp [← hbefore])
  have hname : Confined gs us d.span.stop := .of_le (hi.order_at hbefore).2.2
  have hus : us <:+ i.tokens := (List.suffix_cons d us).trans hts
  have hparts : f.name = ⟨d.lexeme, d.span⟩ ∧
      (∀ x ∈ f.type?, Confined gs us x.span.stop) ∧ ∀ x ∈ f.default?, Confined gs us x.span.stop := by
    have hstop : ∀ t : DocToken, (!decide (t.kind = .op .semicolon)) = true →
        t.kind ≠ .op .semicolon := by simp
    -- the text of the type and of the default value, from `mid` on
    have htexts {mid : List DocToken} (hpasses : Passes gs us mid) :
        let tokens := mid.takeWhile fun t => !decide (t.kind = .op .semicolon)
        let type := Ident.ofTokens (i.current mid).span.start (plainTokens (splitDefault 0 tokens).1)
        (∀ x ∈ some type, Confined gs us x.span.stop) ∧
          ∀ x ∈ Ident.ofTokens? (plainTokens (splitDefault 0 tokens).2),
            Confined gs us x.span.stop := by
      have hmid : mid <:+ i.tokens := hpasses.suffix.trans hus
      refine ⟨fun x hx => ?_, fun x hx => ?_⟩
      · obtain rfl := Option.some.inj hx
        exact hpasses.confined (.ofTokens hi hmid hstop (splitDefault_isPrefix 0 _).isInfix)
      · exact hpasses.confined (.ofTokens? hi hmid hstop (splitDefault_suffix 0 _).isInfix hx)
    split at h
    · rw [h.1]
      exact ⟨rfl, by simp [Field.ofException], by simp [Field.ofException]⟩
    · obtain ⟨mid, tokens, hmid, htokens, rfl⟩ := h
      have hpasses : Passes gs us mid := by
        split at hmid
        · rename_i hconstant
          have hconstant : (i.current us).kind = .keyword .constant := hconstant
          rw [hmid.2]
          exact .tail (i := i) (by simp [hconstant])
        · exact hmid ▸ .refl _ _
      obtain ⟨rfl, -⟩ := returns_takeTo.1 htokens
      split
      · exact ⟨rfl, htexts hpasses⟩
      · exact ⟨rfl, htexts hpasses⟩
  obtain ⟨hident, htype, hdefault⟩ := hparts
  refine ⟨⟨hd, hkind, hident⟩, ?_⟩
  unfold Field.span
  rw [hident]
  refine Confined.merge? (Confined.merge? hname fun t ht => ?_) fun t ht => ?_
  · obtain ⟨x, hx, rfl⟩ := Option.map_eq_some_iff.1 ht
    exact htype x hx
  · obtain ⟨x, hx, rfl⟩ := Option.map_eq_some_iff.1 ht
    exact hdefault x hx

/-! ## Parts of declarations -/

/-- The semicolons in a list of fields stand between its parentheses. -/
theorem passes_fieldList (hi : i.Scanned) (hfault : i.fault? = none) (hts : ts <:+ i.tokens)
    (hopen : (i.current ts).kind = .op .openParen) {l : FieldList} (hgs : l.inner ∈ gs)
    (h : Returns fieldList i ts l rest) :
    Passes gs ts rest ∧ Confined gs ts l.span.stop := by
  obtain ⟨t, us, rfl, -⟩ := cons_of_current hi.eof_kind hopen (by simp)
  obtain ⟨hopening, u, hsuffix, hclose, hclosing⟩ := closing_of_fieldList hi h
  have hinside : Passes gs (t :: us) (u :: rest) := by
    refine .within hi hfault hts (hsuffix.trans (List.suffix_cons t us)) hgs (fun s hs => ?_) ?_
    · have hle := current_le hi hts hs
      rw [FieldList.inner, hopening]
      exact hle
    · rw [FieldList.inner, hclosing]
      exact Nat.le_refl _
  have hbehind : Passes gs (t :: us) rest :=
    hinside.trans (.tail (i := i) (by simp [Input.current, hclose]))
  refine ⟨hbehind, hbehind.confined (.of_le fun s hs => ?_)⟩
  obtain ⟨before, hbefore⟩ := hinside.suffix.trans hts
  have hle : u.span.stop ≤ s.span.start := (hi.order_at hbefore).2.2 s hs
  have hstop : u.span.stop = u.span.start + 1 :=
    (hi.spelling (d := u) (by simp [← hbefore]) hclose (by simp)).2
  have hopened : t.span.start ≤ u.span.start :=
    current_le hi hts (List.mem_cons_of_mem t (hsuffix.subset (by simp)))
  have hoffset : addOffset l.closing 1 ≤ l.closing + 1 := Nat.min_le_left _ _
  show Nat.max (addOffset l.closing 1) l.opening ≤ s.span.start
  exact Nat.max_le.2 ⟨by omega, by omega⟩

theorem passes_fieldList? (hi : i.Scanned) (hfault : i.fault? = none) (hts : ts <:+ i.tokens)
    {l? : Option FieldList} (hgs : ∀ l ∈ l?, l.inner ∈ gs) (h : Returns fieldList? i ts l? rest) :
    Passes gs ts rest ∧ ∀ l ∈ l?, Confined gs ts l.span.stop := by
  rw [returns_fieldList?] at h
  split at h
  · rename_i hopen
    obtain ⟨l, hl, rfl⟩ := h
    obtain ⟨hpasses, hconfined⟩ := passes_fieldList hi hfault hts hopen (hgs l rfl) hl
    exact ⟨hpasses, by simpa using hconfined⟩
  · obtain ⟨rfl, rfl⟩ := h
    exact ⟨.refl _ _, by simp⟩

/-- The text of the tokens at hand starts with the first of them. -/
theorem start_ofTokens (ts : List DocToken) (p : DocToken → Bool) :
    (Ident.ofTokens (i.current ts).span.start (plainTokens (ts.takeWhile p))).span.start =
      (i.current ts).span.start := by
  cases ts with
  | nil => rfl
  | cons t us =>
    unfold Ident.ofTokens
    cases hx : Ident.ofTokens? (plainTokens ((t :: us).takeWhile p)) with
    | none => rfl
    | some x =>
      rw [List.takeWhile_cons] at hx
      split at hx
      · unfold Ident.ofTokens? at hx
        split at hx
        · rename_i hfirst _
          obtain rfl := Option.some.inj hx
          obtain rfl := Option.some.inj hfirst
          rfl
        · cases hx
      · cases hx

/-- A text up to the semicolon. -/
theorem confined_typeTail (hi : i.Scanned) (gs : List Span) (hts : ts <:+ i.tokens) {x : Ident}
    (h : Returns typeTail i ts x rest) :
    Confined gs ts.tail x.span.stop ∧ x.span.start = (i.current ts.tail).span.start := by
  obtain ⟨-, -, rfl, -⟩ := returns_typeTail.1 h
  exact ⟨.ofTokens hi (ts.tail_suffix.trans hts) (by simp) List.infix_rfl, start_ofTokens _ _⟩

/-! ## Declarations behind a word -/

theorem introduces_name (hi : i.Scanned) {d x : DocToken} (hts : d :: x :: us <:+ i.tokens)
    {word : Keyword} (hd : d.kind = .keyword word) (hx : x.kind = .ident) :
    Introduces i.raw d.token word ⟨x.lexeme, x.span⟩ := by
  obtain ⟨before, hbefore⟩ := hts
  exact ⟨_, x.skipped, x.token, _, Input.Scanned.raw_eq_pair hbefore.symm, hd,
    hi.comments x (by simp [← hbefore]), hx, rfl⟩

/-- The name of a declaration, and what stands behind it. -/
theorem confined_name (hi : i.Scanned) (gs : List Span) {d x : DocToken}
    (hts : d :: x :: us <:+ i.tokens) (hx : x.kind = .ident) :
    us <:+ i.tokens ∧ Passes gs (x :: us) us ∧ (∀ s ∈ us, x.span.stop ≤ s.span.start) ∧
      Confined gs us x.span.stop := by
  have hbehind : x :: us <:+ i.tokens := (List.suffix_cons d _).trans hts
  obtain ⟨before, hbefore⟩ := id hbehind
  have hle := (hi.order_at hbefore).2.2
  exact ⟨(List.suffix_cons x us).trans hbehind,
    .tail (i := i) (by simp [Input.current, hx]), hle, .of_le hle⟩

theorem confined_subtype (hi : i.Scanned) {d : DocToken} (hts : d :: us <:+ i.tokens) {x : Subtype}
    (hd : d.kind = .keyword .subtype) (h : Returns subtype i (d :: us) x rest) :
    (Item.subtype x).IntroducedBy i.raw d.token ∧ Confined gs us x.span.stop := by
  obtain ⟨-, hname, -, his, base, hbase, rfl⟩ := returns_subtype.1 h
  cases us with
  | nil => exact absurd (hi.eof_kind.symm.trans hname) (by simp)
  | cons n vs =>
    obtain ⟨hvs, hpasses, -, hstop⟩ := confined_name hi gs hts hname
    have hword : Passes gs vs vs.tail := .tail (i := i) (by simp [show (i.current vs).kind = _ from his])
    exact ⟨introduces_name hi hts hd hname,
      hpasses.confined (hstop.max (hword.confined (confined_typeTail hi gs hvs hbase).1))⟩

/-- The result of a function ends before its semicolon. -/
theorem confined_functionResult (hi : i.Scanned) (hts : ts <:+ i.tokens) {x : Ident}
    (h : Returns functionResult i ts x rest) : Confined gs ts x.span.stop := by
  obtain ⟨hreturn, -, -, rfl, -⟩ := returns_functionResult.1 h
  have hword : Passes gs ts ts.tail := .tail (i := i) (by simp [hreturn])
  refine hword.confined (.ofTokens hi (ts.tail_suffix.trans hts) (fun t ht hkind => ?_) List.infix_rfl)
  simp [endsResult, hkind] at ht

/-- A routine ends before its semicolon, but for those in its parameters. -/
theorem confined_routine (hi : i.Scanned) (hfault : i.fault? = none) {d : DocToken}
    (hts : d :: us <:+ i.tokens) {r : Routine} (kind : RoutineKind)
    (hd : d.kind = .keyword kind.keyword) (h : Returns routine i (d :: us) r rest) :
    (Item.routine r).IntroducedBy i.raw d.token ∧
      Confined (Item.routine r).stretches us r.span.stop := by
  obtain ⟨-, hname, -, params, mid, hparams, h⟩ := returns_routine.1 h
  cases us with
  | nil => exact absurd (hi.eof_kind.symm.trans hname) (by simp)
  | cons n vs =>
    have hword : (i.current (d :: n :: vs)).kind = .keyword kind.keyword := hd
    obtain ⟨hvs, hpasses, -, hstop⟩ := confined_name hi (Item.routine r).stretches hts hname
    have hmid : mid <:+ i.tokens := hparams.suffix.trans hvs
    have hparts : r.name = ⟨n.lexeme, n.span⟩ ∧ r.params = params ∧ r.kind = kind ∧
        ∀ x ∈ r.result, Confined (Item.routine r).stretches mid x.span.stop := by
      rw [hword] at h
      cases kind with
      | procedure =>
        rw [if_pos (by simp [RoutineKind.keyword])] at h
        obtain ⟨-, rfl⟩ := h
        exact ⟨rfl, rfl, rfl, by simp⟩
      | function =>
        rw [if_neg (by simp [RoutineKind.keyword])] at h
        obtain ⟨result, mid', clauses, hresult, -, hr⟩ := h
        have hconfined : Confined (Item.routine r).stretches mid result.span.stop :=
          confined_functionResult hi hmid hresult
        rw [hr] at hconfined ⊢
        exact ⟨rfl, rfl, rfl, by simpa using hconfined⟩
    obtain ⟨hident, rfl, hkind, hresult⟩ := hparts
    have hgs : ∀ l ∈ r.params, l.inner ∈ (Item.routine r).stretches :=
      fun l hl => List.mem_map_of_mem (Option.mem_toList.2 hl)
    obtain ⟨hlist, hclosing⟩ := passes_fieldList? hi hfault hvs hgs hparams
    refine ⟨?_, hpasses.confined ?_⟩
    · show Introduces i.raw d.token r.kind.keyword r.name
      rw [hkind, hident]
      exact introduces_name hi hts hd hname
    · unfold Routine.span
      rw [hident]
      refine Confined.merge? (Confined.merge? hstop fun s hs => ?_) fun s hs => ?_
      · obtain ⟨l, hl, rfl⟩ := Option.map_eq_some_iff.1 hs
        exact hclosing l hl
      · obtain ⟨x, hx, rfl⟩ := Option.map_eq_some_iff.1 hs
        exact hlist.confined (hresult x hx)

/-! ## Cursors -/

/-- The type of the rows of a cursor ends before a semicolon. -/
theorem passes_cursorResult? (hi : i.Scanned) (gs : List Span) (hts : ts <:+ i.tokens)
    {x? : Option Ident} (h : Returns cursorResult? i ts x? rest) :
    Passes gs ts rest ∧ ∀ x ∈ x?, Confined gs ts x.span.stop := by
  rw [returns_cursorResult?] at h
  split at h
  · rename_i hreturn
    obtain ⟨-, row, hrow, rfl⟩ := h
    obtain ⟨rfl, rfl, -⟩ := returns_takeTo.1 hrow
    have hword : Passes gs ts ts.tail := .tail (i := i) (by simp [hreturn])
    have hstop : ∀ t : DocToken, (!(decide (t.kind = .keyword .is) ||
        decide (t.kind = .op .semicolon))) = true → t.kind ≠ .op .semicolon := by simp
    refine ⟨hword.trans (.dropWhile hstop), fun x hx => ?_⟩
    obtain rfl := Option.some.inj hx
    exact hword.confined (.ofTokens hi (ts.tail_suffix.trans hts) hstop List.infix_rfl)
  · obtain ⟨rfl, rfl⟩ := h
    exact ⟨.refl _ _, by simp⟩

theorem stop_of_query (sql : Sql) : sql.span.stop ≤ sql.start + sql.text.utf8ByteSize :=
  Nat.le_trans (Nat.min_le_left _ _) (Nat.add_le_add_left (Nat.min_le_left _ _) _)

/-- The semicolons before the end of a query stand before its start. -/
theorem confined_cursorQuery (hi : i.Scanned) (hfault : i.fault? = none) (hts : ts <:+ i.tokens)
    {sql : Sql} (hgs : ⟨n, sql.start⟩ ∈ gs) (hn : ∀ s ∈ ts, n ≤ s.span.start)
    (h : Returns cursorQuery i ts sql rest) : Confined gs ts sql.span.stop := by
  rw [returns_cursorQuery] at h
  split at h
  · obtain ⟨rfl, -⟩ := h
    exact .of_le fun s hs => Nat.le_trans (stop_of_query _) (current_le hi hts hs)
  · -- behind `is` the query starts, and nothing in it is a semicolon
    obtain ⟨opened, hopened, -, hrest, rfl⟩ := h
    have hquery : opened.tail <:+ ts := opened.tail_suffix.trans hopened.suffix
    have hgap : Passes gs ts opened.tail := .within hi hfault hts hquery hgs hn (Nat.le_refl _)
    obtain ⟨hstop, -⟩ := extract_slice hi hfault (hquery.trans hts) hrest.suffix rfl rfl
    have hinside : Passes gs opened.tail rest := by
      rw [(returns_skipTo.1 hrest).1]
      exact .dropWhile (by simp)
    refine hgap.confined (hinside.confined (.of_le fun s hs => ?_))
    refine Nat.le_trans (stop_of_query _) (hstop.trans_le ?_)
    exact current_le hi ((hrest.suffix.trans hquery).trans hts) hs

/-- A cursor ends before its semicolon, but for those in its parameters and before its
    query. -/
theorem confined_cursor (hi : i.Scanned) (hfault : i.fault? = none) {d : DocToken}
    (hts : d :: us <:+ i.tokens) {c : Cursor} (hd : d.kind = .keyword .cursor)
    (h : Returns cursor i (d :: us) c rest) :
    (Item.cursor c).IntroducedBy i.raw d.token ∧
      Confined (Item.cursor c).stretches us c.span.stop := by
  obtain ⟨-, hname, -, params, mid, result, mid', sql, hparams, hresult, hquery, hc⟩ :=
    returns_cursor.1 h
  cases us with
  | nil => exact absurd (hi.eof_kind.symm.trans hname) (by simp)
  | cons n vs =>
    obtain ⟨hvs, hpasses, hle, hstop⟩ := confined_name hi (Item.cursor c).stretches hts hname
    have hmid : mid <:+ i.tokens := hparams.suffix.trans hvs
    have hmid' : mid' <:+ i.tokens := hresult.suffix.trans hmid
    have hparams' : params = c.params := by rw [hc]
    have hresult' : result = c.result := by rw [hc]
    have hsql : sql = c.sql := by rw [hc]
    subst hparams' hresult' hsql
    have hgs : ∀ l ∈ c.params, l.inner ∈ (Item.cursor c).stretches := by
      intro l hl
      exact List.mem_append_left _ (List.mem_map_of_mem (Option.mem_toList.2 hl))
    have hgs' : ⟨c.signatureStop, c.sql.start⟩ ∈ (Item.cursor c).stretches :=
      List.mem_append_right _ (List.mem_singleton_self _)
    obtain ⟨hlist, hclosing⟩ := passes_fieldList? hi hfault hvs hgs hparams
    obtain ⟨hrows, hrow⟩ := passes_cursorResult? hi (Item.cursor c).stretches hmid hresult
    have hident : c.name = ⟨n.lexeme, n.span⟩ := congrArg Cursor.name hc
    have hsignature : ∀ s ∈ mid', c.signatureStop ≤ s.span.start := by
      intro s hs
      obtain ⟨front, hfront⟩ := (List.suffix_cons d _).trans hts
      obtain ⟨-, -, -, hle⟩ := parts_cursorResult? hi
        (parts_fieldList? hi (.behind hi hfront) hparams) hresult (List.ne_nil_of_mem hs)
      have hle := hle s hs
      rw [Cursor.signatureStop, hident]
      show max n.span.stop _ ≤ _
      omega
    have hsql := confined_cursorQuery hi hfault hmid' hgs' hsignature hquery
    refine ⟨?_, hpasses.confined ?_⟩
    · show Introduces i.raw d.token .cursor c.name
      rw [hident]
      exact introduces_name hi hts hd hname
    · unfold Cursor.span
      refine Confined.merge? (Confined.merge? ?_ fun s hs => ?_) fun s hs => ?_
      · rw [hident]
        exact hstop.max (hlist.confined (hrows.confined hsql))
      · obtain ⟨l, hl, rfl⟩ := Option.map_eq_some_iff.1 hs
        exact hclosing l hl
      · obtain ⟨x, hx, rfl⟩ := Option.map_eq_some_iff.1 hs
        exact hlist.confined (hrow x hx)

/-! ## Types -/

/-- The bound of an array ends before what follows it. -/
theorem stop_of_arrayBound? (hi : i.Scanned) (hts : ts <:+ i.tokens) {x? : Option Ident}
    (h : Returns arrayBound? i ts x? rest) (hmid : mid <:+ rest) :
    ∀ x ∈ x?, ∀ s ∈ mid.tail, x.span.stop ≤ s.span.start := by
  rw [returns_arrayBound?] at h
  split at h
  · rename_i hopen
    obtain ⟨g, hgroup, rfl⟩ := h
    obtain ⟨t, us, rfl, -⟩ := cons_of_current hi.eof_kind hopen (by simp)
    obtain ⟨-, hclosing, -, -⟩ := returns_group.1 hgroup
    have hsuffix : rest <:+ us := hclosing ▸ ⟨_, splitNested_append _ 0 us⟩
    rintro x hx s hs
    obtain rfl := Option.some.inj hx
    cases rest with
    | nil =>
      rw [List.suffix_nil.1 hmid] at hs
      cases hs
    | cons c behind =>
      have hs : s ∈ behind := by
        rcases List.suffix_cons_iff.1 hmid with rfl | hmid
        · exact hs
        · exact hmid.subset (mid.tail_suffix.subset hs)
      obtain ⟨before, hbefore⟩ := id hts
      obtain ⟨front, hfront⟩ := (hsuffix.trans (List.suffix_cons t us)).trans hts
      obtain ⟨-, hc, hbehind⟩ := hi.order_at hfront
      obtain ⟨-, ht, hafter⟩ := hi.order_at hbefore
      have hle := hafter c (hsuffix.subset (by simp))
      have hs := hbehind s hs
      show Nat.max (c.span.stop - 1) (t.span.start + 1) ≤ s.span.start
      exact Nat.max_le.2 ⟨by omega, by omega⟩
  · obtain ⟨rfl, rfl⟩ := h
    simp

/-- What stands between a place and the elements of a type, and the elements. -/
theorem confined_element (hi : i.Scanned) (hfault : i.fault? = none) (hts : ts <:+ i.tokens)
    (hmid : mid <:+ ts) {x : Ident} (hgs : ⟨n, x.span.start⟩ ∈ gs) (hn : ∀ s ∈ ts, n ≤ s.span.start)
    (h : Returns typeTail i mid x rest) :
    Passes gs ts mid.tail ∧ Confined gs ts x.span.stop := by
  obtain ⟨hconfined, hstart⟩ := confined_typeTail hi gs (hmid.trans hts) h
  have hpasses : Passes gs ts mid.tail :=
    .within hi hfault hts (mid.tail_suffix.trans hmid) hgs hn (Nat.le_of_eq hstart.symm)
  exact ⟨hpasses, hpasses.confined hconfined⟩

/-- What a type that is documented is read by. -/
theorem returns_of_typeBody? {x : Ident} {body : TypeBody}
    (h : Returns (typeBody? x) i ts (some body) rest) :
    Returns tableType i ts body rest ∨ Returns arrayType i ts body rest ∨
      ((i.current ts).kind = .keyword .record ∧ Returns recordType i ts body rest) ∨
      ((i.current ts).kind = .keyword .ref ∧ Returns refCursorType i ts body rest) := by
  have hbody {p : Parser TypeBody} {us : List DocToken}
      (h : Returns (p >>= fun b => pure (some b)) i ts (some body) us) : Returns p i ts body us := by
    obtain ⟨b, mid, hb, hpure⟩ := returns_bind.1 h
    obtain ⟨hsome, rfl⟩ := returns_pure.1 hpure
    rwa [Option.some.inj hsome]
  have h := returns_current_bind.1 h
  split at h
  · exact .inl (hbody h)
  · exact .inr (.inl (hbody h))
  · rename_i hword
    exact .inr (.inr (.inl ⟨hword, hbody h⟩))
  · rename_i hword
    exact .inr (.inr (.inr ⟨hword, hbody h⟩))
  · obtain ⟨_, mid, -, h⟩ := returns_bind.1 h
    obtain ⟨_, mid, -, hpure⟩ := returns_bind.1 h
    cases (returns_pure.1 hpure).1

section
variable {x : Ident} {body : TypeBody} (doc : Option CommentGroup)

theorem confined_tableType (hi : i.Scanned) (hfault : i.fault? = none) (hts : ts <:+ i.tokens)
    (hx : ∀ s ∈ ts, x.span.stop ≤ s.span.start) (h : Returns tableType i ts body rest) :
    Confined (Item.type ⟨doc, x, body⟩).stretches ts (Item.type ⟨doc, x, body⟩).span.stop := by
  obtain ⟨-, opened, element, hskip, helement, rfl⟩ := returns_tableType.1 h
  have hsuffix := hskip.suffix.trans ts.tail_suffix
  have hconfined := (confined_element hi hfault hts hsuffix (List.mem_singleton_self _) hx helement).2
  exact (Confined.of_le hx).max hconfined

theorem confined_arrayType (hi : i.Scanned) (hfault : i.fault? = none) (hts : ts <:+ i.tokens)
    (hx : ∀ s ∈ ts, x.span.stop ≤ s.span.start) (h : Returns arrayType i ts body rest) :
    Confined (Item.type ⟨doc, x, body⟩).stretches ts (Item.type ⟨doc, x, body⟩).span.stop := by
  obtain ⟨-, bound, closing, opened, element, hbound, hskip, helement, rfl⟩ :=
    returns_arrayType.1 h
  have hsuffix := hskip.suffix.trans (hbound.suffix.trans ts.tail_suffix)
  obtain ⟨hpasses, hconfined⟩ :=
    confined_element hi hfault hts hsuffix (List.mem_singleton_self _) hx helement
  have hname : Confined [⟨x.span.stop, element.span.start⟩] ts x.span.stop := .of_le hx
  cases bound with
  | none => exact hname.max hconfined
  | some bound =>
    have hclosing : Confined [⟨x.span.stop, element.span.start⟩] ts bound.span.stop :=
      hpasses.confined (.of_le (stop_of_arrayBound? hi (ts.tail_suffix.trans hts) hbound
        hskip.suffix bound rfl))
    exact (hname.max hclosing).max hconfined

theorem confined_recordType (hi : i.Scanned) (hfault : i.fault? = none) (hts : ts <:+ i.tokens)
    (hword : (i.current ts).kind = .keyword .record)
    (hx : ∀ s ∈ ts, x.span.stop ≤ s.span.start) (h : Returns recordType i ts body rest) :
    Confined (Item.type ⟨doc, x, body⟩).stretches ts (Item.type ⟨doc, x, body⟩).span.stop := by
  obtain ⟨-, hopen, l, hl, rfl⟩ := returns_recordType.1 h
  have hlist := (passes_fieldList hi hfault (ts.tail_suffix.trans hts) hopen
    (List.mem_singleton_self _) hl).2
  have hfirst : Passes [l.inner] ts ts.tail := .tail (i := i) (by simp [hword])
  exact (Confined.of_le hx).max (hfirst.confined hlist)

theorem confined_refCursorType (hi : i.Scanned) (hts : ts <:+ i.tokens)
    (hword : (i.current ts).kind = .keyword .ref)
    (hx : ∀ s ∈ ts, x.span.stop ≤ s.span.start) (h : Returns refCursorType i ts body rest) :
    Confined (Item.type ⟨doc, x, body⟩).stretches ts (Item.type ⟨doc, x, body⟩).span.stop := by
  obtain ⟨-, hcursor, -, h⟩ := returns_refCursorType.1 h
  split at h
  · obtain ⟨rfl, -⟩ := h
    exact .of_le hx
  · obtain ⟨hreturn, y, hy, rfl⟩ := h
    have hwords : Passes [] ts ts.tail.tail.tail :=
      (Passes.tail (i := i) (by simp [hword])).trans
        ((Passes.tail (i := i) (by simp [hcursor])).trans (.tail (i := i) (by simp [hreturn])))
    have hsuffix : ts.tail.tail <:+ i.tokens := (ts.tail.tail_suffix.trans ts.tail_suffix).trans hts
    exact (Confined.of_le hx).max (hwords.confined (confined_typeTail hi [] hsuffix hy).1)

/-- A type ends before its semicolon, but for those between its name and its elements
    and those between its parentheses. -/
theorem confined_typeBody? (hi : i.Scanned) (hfault : i.fault? = none) (hts : ts <:+ i.tokens)
    (hx : ∀ s ∈ ts, x.span.stop ≤ s.span.start) (h : Returns (typeBody? x) i ts (some body) rest) :
    Confined (Item.type ⟨doc, x, body⟩).stretches ts (Item.type ⟨doc, x, body⟩).span.stop := by
  rcases returns_of_typeBody? h with h | h | ⟨hword, h⟩ | ⟨hword, h⟩
  · exact confined_tableType doc hi hfault hts hx h
  · exact confined_arrayType doc hi hfault hts hx h
  · exact confined_recordType doc hi hfault hts hword hx h
  · exact confined_refCursorType doc hi hts hword hx h

end

theorem confined_typeDecl? (hi : i.Scanned) (hfault : i.fault? = none) {d : DocToken}
    (hts : d :: us <:+ i.tokens) {t : TypeDecl} (hd : d.kind = .keyword .type)
    (h : Returns typeDecl? i (d :: us) (some t) rest) :
    (Item.type t).IntroducedBy i.raw d.token ∧
      Confined (Item.type t).stretches us (Item.type t).span.stop := by
  obtain ⟨-, hname, -, his, -, body?, hbody, ht⟩ := returns_typeDecl?.1 h
  obtain ⟨body, rfl, rfl⟩ := Option.map_eq_some_iff.1 ht.symm
  cases us with
  | nil => exact absurd (hi.eof_kind.symm.trans hname) (by simp)
  | cons n vs =>
    obtain ⟨hvs, hpasses, hle, -⟩ := confined_name hi (Item.type ⟨_, _, body⟩).stretches hts hname
    refine ⟨introduces_name hi hts hd hname, hpasses.confined ?_⟩
    have hword : (i.current vs).kind = .keyword .is := his
    refine (Passes.tail (i := i) (by simp [hword])).confined ?_
    exact confined_typeBody? _ hi hfault (vs.tail_suffix.trans hvs)
      (fun s hs => hle s (vs.tail_suffix.subset hs)) hbody

/-! ## Declarations -/

theorem ne_nil_of_item? (hi : i.Scanned) {item : Item} (h : Returns item? i ts (some item) rest) :
    ts ≠ [] := by
  rintro rfl
  have h := returns_current_bind.1 h
  simp [Input.current, hi.eof_kind] at h

/-- **One declaration.**  The token at hand introduces it, and the semicolons behind
    that token and before the end of the declaration stand in its stretches. -/
theorem confined_item? (hi : i.Scanned) (hfault : i.fault? = none) (hts : ts <:+ i.tokens)
    {item : Item} (h : Returns item? i ts (some item) rest) :
    ∃ d us, ts = d :: us ∧ item.IntroducedBy i.raw d.token ∧
      Confined item.stretches us item.span.stop := by
  obtain ⟨d, us, rfl⟩ := List.exists_cons_of_ne_nil (ne_nil_of_item? hi h)
  refine ⟨d, us, rfl, ?_⟩
  have hkind := returns_of_item? h
  cases item with
  | field f => exact confined_variableField hi hts hkind
  | subtype s => exact confined_subtype hi hts hkind.1 hkind.2
  | routine r =>
    obtain ⟨kind, hword, hr⟩ := hkind
    exact confined_routine hi hfault hts kind hword hr
  | cursor c => exact confined_cursor hi hfault hts hkind.1 hkind.2
  | type t => exact confined_typeDecl? hi hfault hts hkind.1 hkind.2

end Parser

/-! ## Files -/

theorem Item.stretch_le {source : ByteArray} {item : Item} (h : item.InBounds source) {g : Span}
    (hg : g ∈ item.stretches) : g.stop ≤ item.span.stop := by
  have hmerge {s : Span} {t? : Option Span} {n : Nat} (h : n ≤ s.stop) :
      n ≤ (s.merge? t?).stop := by
    cases t? with
    | none => exact h
    | some t => exact Nat.le_trans h (Nat.le_max_left _ _)
  have hlist {l? : Option FieldList} (hl : ∀ l ∈ l?, l.InBounds source)
      (hg : g ∈ l?.toList.map FieldList.inner) (s : Span) :
      g.stop ≤ (s.merge? (l?.map (·.span))).stop := by
    obtain ⟨l, hmem, rfl⟩ := List.mem_map.1 hg
    obtain rfl := Option.mem_toList.1 hmem
    have hstop : l.span.stop = l.closing + 1 := (hl l rfl).2.1
    show l.closing ≤ Nat.max s.stop l.span.stop
    exact Nat.le_trans (by omega) (Nat.le_max_right _ _)
  cases item with
  | field f => cases hg
  | subtype x => cases hg
  | routine r => exact hmerge (hlist h.2.1 hg _)
  | cursor c =>
    obtain ⟨-, hparams, -, hsql, -⟩ := h
    rcases List.mem_append.1 hg with hg | hg
    · exact hmerge (hlist hparams hg _)
    · obtain rfl := List.mem_singleton.1 hg
      exact hmerge (hmerge (Nat.le_trans hsql.1 (Nat.le_max_right _ _)))
  | type t =>
    obtain ⟨doc, name, body⟩ := t
    obtain ⟨-, hbody⟩ := h
    cases body with
    | refCursor result => cases hg
    | table element =>
      obtain rfl := List.mem_singleton.1 hg
      exact Nat.le_trans (show element.span.start ≤ element.span.stop from hbody.1) (Nat.le_max_right _ _)
    | record fields =>
      obtain rfl := List.mem_singleton.1 hg
      have hstop : fields.span.stop = fields.closing + 1 := hbody.2.1
      show fields.closing ≤ Nat.max name.span.stop fields.span.stop
      exact Nat.le_trans (by omega) (Nat.le_max_right _ _)
    | varray bound element =>
      obtain rfl := List.mem_singleton.1 hg
      have hle : element.span.start ≤ element.span.stop := hbody.2.1
      cases bound with
      | none => exact Nat.le_trans hle (Nat.le_max_right _ _)
      | some bound => exact Nat.le_trans hle (Nat.le_max_right _ _)

/-- A semicolon behind a token of the parser is a token that is left behind it. -/
theorem Input.Scanned.mem_behind {i : Input} (hi : i.Scanned) {d : DocToken} {us : List DocToken}
    (hts : d :: us <:+ i.tokens) {s : Token} (hs : s ∈ i.raw) (hkind : s.kind = .op .semicolon)
    (hle : d.span.stop ≤ s.span.start) : ∃ e ∈ us, e.token = s := by
  have hplain : s ∈ plainTokens i.tokens := by
    rw [hi.plainTokens_eq]
    exact List.mem_filter.2 ⟨hs, by simp [hkind]⟩
  obtain ⟨e, he, rfl⟩ := List.mem_map.1 hplain
  obtain ⟨before, hbefore⟩ := hts
  obtain ⟨hfront, hlt, -⟩ := hi.order_at hbefore
  rw [← hbefore] at he
  rcases List.mem_append.1 he with he | he
  · have hstart : e.token.span.start < d.span.start := hfront e he
    omega
  · rcases List.mem_cons.1 he with rfl | he
    · exact absurd hle (Nat.not_le.2 hlt)
    · exact ⟨e, he, rfl⟩

/-- **Semicolons in declarations.**  Every declaration of a file that is parsed has a
    token that introduces it.  A semicolon behind that token starts before the
    declaration ends if and only if it stands in one of the stretches of the
    declaration. -/
theorem parse_semicolons {file : String} {source : ByteArray} {f : SourceFile}
    (h : (parse file source).result = .ok f) :
    ∃ raw, tokens? source = some raw ∧ ∀ p ∈ f.packages, ∀ item ∈ p.items, ∃ t ∈ raw,
      item.IntroducedBy raw t ∧
      ∀ s ∈ raw, s.kind = .op .semicolon → t.span.stop ≤ s.span.start →
        (s.span.start < item.span.stop ↔ ∃ g ∈ item.stretches, s.Within g) := by
  have hspans := parse_spans h
  obtain ⟨text, rfl, hsize, hfault, hreturns⟩ := text_of_parse h
  have hi := Input.small_ofText file hsize
  obtain ⟨closed, cut?, houtline, hpackages⟩ := (Parser.returns_packages_iff hi.toScanned).1 hreturns
  refine ⟨_, hi.tokens?_source hfault, fun p hp item hitem => ?_⟩
  have hconfined := houtline.forall_items (List.suffix_refl _)
    (Q := fun item => ∃ t ∈ (Input.ofText file text).raw,
      item.IntroducedBy (Input.ofText file text).raw t ∧
      ∀ s ∈ (Input.ofText file text).raw, s.kind = .op .semicolon → t.span.stop ≤ s.span.start →
        s.span.start < item.span.stop → ∃ g ∈ item.stretches, s.Within g) (by
    intro ts item rest hts hreturns
    obtain ⟨d, us, rfl, hintroduced, hconfined⟩ := Parser.confined_item? hi.toScanned hfault hts hreturns
    refine ⟨d.token, Input.Scanned.mem_raw (hts.subset (by simp)), hintroduced, ?_⟩
    intro s hs hkind hle hlt
    obtain ⟨e, he, rfl⟩ := hi.mem_behind hts hs hkind hle
    exact hconfined e he hkind hlt) p (hpackages ▸ hp) item hitem
  obtain ⟨t, ht, hintroduced, hconfined⟩ := hconfined
  refine ⟨t, ht, hintroduced, fun s hs hkind hle => ⟨hconfined s hs hkind hle, ?_⟩⟩
  rintro ⟨g, hg, -, hstop⟩
  obtain ⟨rest, hscans, -⟩ := hi.scans
  have hlt := hscans.start_lt_stop hs
  have hgle := Item.stretch_le ((hspans p hp).2 item hitem) hg
  omega

/-- A type without elements before a variable and a type with elements. -/
def swallowingSource : ByteArray :=
  "create package p is\ntype t is table;\nv number;\ntype u is table of x;\nend p;".toUTF8

theorem parse_semicolons_table :
    ∃ f, (parse "x.pks" swallowingSource).result = .ok f ∧
      f.packages.map (·.items.map fun item => (item.span, item.stretches)) =
        [[(⟨25, 67⟩, [⟨26, 66⟩])]] ∧
      ∃ raw, tokens? swallowingSource = some raw ∧ ∀ p ∈ f.packages, ∀ item ∈ p.items, ∃ t ∈ raw,
        item.IntroducedBy raw t ∧
        ∀ s ∈ raw, s.kind = .op .semicolon → t.span.stop ≤ s.span.start →
          (s.span.start < item.span.stop ↔ ∃ g ∈ item.stretches, s.Within g) := by
  have hparse : (parse "x.pks" swallowingSource).result.toOption.map
      (·.packages.map (·.items.map fun item => (item.span, item.stretches))) =
        some [[(⟨25, 67⟩, [⟨26, 66⟩])]] := by
    decide +kernel
  obtain ⟨f, hresult, hvalue⟩ := exists_ok_of_toOption hparse
  exact ⟨f, hresult, hvalue, parse_semicolons hresult⟩

/-- Two declarations are swallowed: the first semicolon behind the word that introduces
    the type stands before the end of the type. -/
theorem semicolon_swallowed :
    ∃ f raw, (parse "x.pks" swallowingSource).result = .ok f ∧ tokens? swallowingSource = some raw ∧
      ∃ p ∈ f.packages, ∃ item ∈ p.items, ∃ t ∈ raw, item.IntroducedBy raw t ∧
        ∃ s ∈ raw, s.kind = .op .semicolon ∧ t.span.stop ≤ s.span.start ∧
          s.span.start < item.span.stop := by
  have hparse : (parse "x.pks" swallowingSource).result = .ok ⟨"x.pks",
      [.ofItems none ⟨"p", 15, 16⟩ 0 74 [.type ⟨none, ⟨"t", 25, 26⟩, .table ⟨"x", 66, 67⟩⟩]]⟩ := by
    decide +kernel
  have htokens : (tokens? swallowingSource).map (fun raw => (raw.drop 4).take 5) =
      some [⟨.keyword .type, "type", 20, 24⟩, ⟨.ident, "t", 25, 26⟩, ⟨.keyword .is, "is", 27, 29⟩,
        ⟨.keyword .table, "table", 30, 35⟩, ⟨.op .semicolon, ";", 35, 36⟩] := by
    decide +kernel
  obtain ⟨raw, hraw, hdrop⟩ := Option.map_eq_some_iff.1 htokens
  have hsplit := List.take_append_drop 4 raw
  rw [← List.take_append_drop 5 (raw.drop 4), hdrop] at hsplit
  generalize raw.take 4 = front, (raw.drop 4).drop 5 = back at hsplit
  subst hsplit
  refine ⟨_, _, hparse, hraw, _, List.mem_singleton_self _, _, List.mem_singleton_self _,
    ⟨.keyword .type, "type", 20, 24⟩, by simp, ?_, ⟨.op .semicolon, ";", 35, 36⟩, by simp, rfl,
    by decide, by decide⟩
  exact ⟨front, [], ⟨.ident, "t", 25, 26⟩, _, by simp; rfl, rfl, by simp, rfl, rfl⟩

end PackageDoc
