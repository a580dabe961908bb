/-
  Packages and the words that close them.

  The declarations of a package are read statement by statement (`Rounds`), up to
  the word `end` that closes it or up to the end of the input.  A file is thus a
  row of specifications that are closed, and behind them at most one that the end
  of the input cuts off (`Outline`), and it is parsed exactly as such a row
  (`returns_packages_iff`).  Every package of a file is returned, also the one that
  is cut off (`parse_closed`); so `last` is the end of a closing word in all
  packages but that one.
-/
import PackageDoc.Proofs.Parser.Composition
import PackageDoc.Proofs.Parser.Docs

namespace PackageDoc

/-! ## Closing words -/

section
variable (raw : List Token)

/-- A package that starts at a word `create`. -/
def Package.Opened (p : Package) : Prop :=
  ∃ t ∈ raw, t.kind = .keyword .create ∧ p.first = t.span.start

/-- The word `end` that closes a package, which ends with it, or with its own name right
    behind it. -/
def Package.ClosedBy (p : Package) (e : Token) : Prop :=
  ∃ before after, raw.filter (·.kind ≠ .comment) = before ++ e :: after ∧
    e.kind = .keyword .end_ ∧
    (p.last = e.span.stop ∨
      ∃ n ∈ after.head?, n.kind = .ident ∧ n.lexeme = p.name.name ∧ p.last = n.span.stop)

/-- A package that a word closes. -/
def Package.Closed (p : Package) : Prop := ∃ e, p.ClosedBy raw e

end

namespace Parser

variable {i : Input} {ts us mid rest : List DocToken} {name : Ident}

/-! ## Statements -/

/-- From `ts`, behind whose first token a statement starts, the parser reads one
    statement after the other and comes to `rest`; no statement starts with `end`. -/
inductive Rounds (i : Input) : Found → List DocToken → Found → List DocToken → Prop where
  | refl (found : Found) (ts : List DocToken) : Rounds i found ts found ts
  | step {found found' : Found} {t : DocToken} {us mid rest : List DocToken} {item : Option Item} :
      Reaches i [t] us → (i.current us).kind ≠ .keyword .end_ → Returns item? i us item mid →
      Rounds i ⟨item.toList ++ found.items, (i.current us).span.start⟩ mid found' rest →
      Rounds i found (t :: us) found' rest

theorem Rounds.suffix {found found' : Found} (h : Rounds i found ts found' rest) : rest <:+ ts := by
  induction h with
  | refl => exact List.suffix_refl _
  | step _ _ hitem _ ih => exact (ih.trans hitem.suffix).trans (List.suffix_cons _ _)

/-- **What the statements of a package come to**: the word `end`, or the end of the
    input.  The induction is on what is left to be read. -/
theorem returns_itemLoop {found found' : Found} :
    Returns (iterate (itemStep name) id found) i ts found' rest ↔
      Rounds i found ts found' [] ∧ rest = [] ∨
      ∃ last t us, Rounds i found ts ⟨found'.items, last⟩ (t :: us) ∧ Reaches i [t] us ∧
        (i.current us).kind = .keyword .end_ ∧ Returns (packageEnd name) i us found'.last rest := by
  constructor
  · intro h
    generalize hn : ts.length = n
    induction n using Nat.strongRecOn generalizing found ts with
    | _ n ih =>
      cases ts with
      | nil =>
        obtain ⟨rfl, rfl⟩ := returns_iterate_nil.1 h
        exact .inl ⟨.refl _ _, rfl⟩
      | cons t us =>
        obtain ⟨hfirst, x, mid, hround, hmore⟩ := returns_iterate_cons.1 h
        rw [returns_itemStep] at hround
        split at hround
        · rename_i hend
          obtain ⟨last, hlast, rfl⟩ := hround
          obtain ⟨rfl, rfl⟩ := returns_pure.1 hmore
          exact .inr ⟨found.last, t, us, .refl _ _, hfirst, hend, hlast⟩
        · rename_i hend
          obtain ⟨item, hitem, rfl⟩ := hround
          have hlength := hitem.suffix.length_le
          simp only [List.length_cons] at hn
          rcases ih mid.length (by omega) hmore rfl with
            ⟨hrounds, hrest⟩ | ⟨last, t', us', hrounds, hstop⟩
          · exact .inl ⟨.step hfirst hend hitem hrounds, hrest⟩
          · exact .inr ⟨last, t', us', .step hfirst hend hitem hrounds, hstop⟩
  · -- the rounds are run one after the other
    have hrun {found found'' : Found} {ts mid : List DocToken} (hrounds : Rounds i found ts found'' mid)
        (hmore : Returns (iterate (itemStep name) id found'') i mid found' rest) :
        Returns (iterate (itemStep name) id found) i ts found' rest := by
      induction hrounds with
      | refl => exact hmore
      | step hfirst hend hitem _ ih =>
        refine returns_iterate_cons.2 ⟨hfirst, .inl _, _, returns_itemStep.2 ?_, ih hmore⟩
        rw [if_neg hend]
        exact ⟨_, hitem, rfl⟩
    rintro (⟨hrounds, rfl⟩ | ⟨last, t, us, hrounds, hfirst, hend, hlast⟩)
    · exact hrun hrounds (returns_iterate_nil.2 ⟨rfl, rfl⟩)
    · refine hrun hrounds (returns_iterate_cons.2 ⟨hfirst, .inr found', rest, ?_, by simp⟩)
      exact returns_itemStep.2 (by rw [if_pos hend]; exact ⟨_, hlast, rfl⟩)

/-! ## Specifications -/

/-- A specification, from behind the word `package` to the `end` that closes it. -/
def Closes (i : Input) (create : DocToken) (us : List DocToken) (p : Package)
    (rest : List DocToken) : Prop :=
  ∃ name opening found t e behind, Returns packageName i us name opening ∧
    Rounds i ⟨[], (i.current opening).span.start⟩ opening found (t :: e :: behind) ∧
    e.kind = .keyword .end_ ∧ Returns (packageEnd name) i (e :: behind) p.last rest ∧
    p = .ofItems create.leadDoc name create.span.start p.last found.items.reverse

/-- A specification, from behind the word `package`, whose `end` is missing; `last` is
    the start of its last statement. -/
def CutsOff (i : Input) (create : DocToken) (us : List DocToken) (p : Package) : Prop :=
  ∃ name opening found, Returns packageName i us name opening ∧
    Rounds i ⟨[], (i.current opening).span.start⟩ opening found [] ∧
    p = .ofItems create.leadDoc name create.span.start found.last found.items.reverse

/-- The package that is no body: its name, and the loop over its statements. -/
theorem returns_package?_named {create : DocToken} {p? : Option Package}
    (hbody : (i.current us).kind ≠ .keyword .body) :
    Returns (package? create) i us p? rest ↔ ∃ name opening found,
      Returns packageName i us name opening ∧
      Returns (iterate (itemStep name) id ⟨[], (i.current opening).span.start⟩) i opening found rest ∧
      p? = some (.ofItems create.leadDoc name create.span.start found.last found.items.reverse) := by
  rw [returns_package?, if_neg hbody]
  constructor
  · rintro ⟨name, opening, items, last, hname, hitems, rfl⟩
    obtain ⟨found, hloop, rfl, rfl⟩ := returns_items.1 hitems
    exact ⟨name, opening, found, hname, hloop, rfl⟩
  · rintro ⟨name, opening, found, hname, hloop, rfl⟩
    exact ⟨name, opening, _, _, hname, returns_items.2 ⟨found, hloop, rfl, rfl⟩, rfl⟩

/-- A specification is closed by its `end` or cut off by the end of the input. -/
theorem returns_package?_spec (hi : i.Scanned) {create : DocToken} {p? : Option Package}
    (hbody : (i.current us).kind ≠ .keyword .body) :
    Returns (package? create) i us p? rest ↔
      ∃ p, p? = some p ∧ (Closes i create us p rest ∨ CutsOff i create us p ∧ rest = []) := by
  rw [returns_package?_named hbody]
  constructor
  · rintro ⟨name, opening, found, hname, hloop, rfl⟩
    refine ⟨_, rfl, ?_⟩
    rcases returns_itemLoop.1 hloop with ⟨hrounds, hrest⟩ | ⟨last, t, vs, hrounds, -, hend, hlast⟩
    · exact .inr ⟨⟨name, opening, found, hname, hrounds, rfl⟩, hrest⟩
    · obtain ⟨e, behind, rfl, -⟩ := cons_of_current hi.eof_kind hend (by simp)
      exact .inl ⟨name, opening, _, t, e, behind, hname, hrounds, hend, hlast, rfl⟩
  · rintro ⟨p, rfl, ⟨name, opening, found, t, e, behind, hname, hrounds, hend, hlast, hp⟩ |
      ⟨⟨name, opening, found, hname, hrounds, hp⟩, rfl⟩⟩
    · refine ⟨name, opening, ⟨found.items, p.last⟩, hname, ?_, congrArg some hp⟩
      exact returns_itemLoop.2 (.inr ⟨found.last, t, e :: behind, hrounds, by simp [Reaches], hend, hlast⟩)
    · refine ⟨name, opening, found, hname, ?_, congrArg some hp⟩
      exact returns_itemLoop.2 (.inl ⟨hrounds, rfl⟩)

/-! ## The specifications of a file -/

/-- The next statement that creates a package: its word `create`, and what stands
    behind its word `package`. -/
def Creates (i : Input) (ts : List DocToken) (create : DocToken) (us : List DocToken) : Prop :=
  ∃ t, Returns nextCreate? i ts (some create) (t :: us) ∧ Reaches i [t] us

/-- The specifications from `ts` on: those that are closed, in order, and the one that
    is cut off, if there is such a one. -/
inductive Outline (i : Input) : List DocToken → List Package → Option Package → Prop where
  | done {ts : List DocToken} : Returns nextCreate? i ts none [] → Outline i ts [] none
  | body {ts us rest : List DocToken} {create : DocToken} {closed : List Package}
      {cut? : Option Package} :
      Creates i ts create us → (i.current us).kind = .keyword .body →
      Returns packageBody i us () rest → Outline i rest closed cut? → Outline i ts closed cut?
  | closed {ts us rest : List DocToken} {create : DocToken} {p : Package}
      {closed : List Package} {cut? : Option Package} :
      Creates i ts create us → (i.current us).kind ≠ .keyword .body → Closes i create us p rest →
      Outline i rest closed cut? → Outline i ts (p :: closed) cut?
  | cutOff {ts us : List DocToken} {create : DocToken} {p : Package} :
      Creates i ts create us → (i.current us).kind ≠ .keyword .body → CutsOff i create us p →
      Outline i ts [] (some p)

theorem Creates.suffix {create : DocToken} (h : Creates i ts create us) : us <:+ ts := by
  obtain ⟨t, hnext, -⟩ := h
  exact (List.suffix_cons t us).trans hnext.suffix

/-- The packages of a file are the one at hand, if it is no body, and those behind. -/
theorem Creates.outcome_packages {create : DocToken} (h : Creates i ts create us) :
    packages.outcome i ts = ((package? create).outcome i us).bind fun x =>
      (packages.outcome i x.2).map fun y => (x.1.toList ++ y.1, y.2) := by
  obtain ⟨t, hnext, hfirst⟩ := h
  have hadvance : Returns advance i (t :: us) () us := returns_advance.2 ⟨rfl, hfirst⟩
  have hloop : packages.outcome i ts = (advance >>= fun _ => package? create >>= fun p? =>
      searchFrom (p?.toList ++ [])).outcome i (t :: us) := by
    rw [packages, outcome_bind, hnext]
    exact outcome_packageLoop ⟨create, []⟩ t us
  have hreverse (p? : Option Package) : (p?.toList ++ []).reverse = p?.toList := by
    cases p? <;> rfl
  rw [hloop, outcome_bind, hadvance]
  simp only [Except.bind, outcome_bind, outcome_searchFrom, hreverse]

theorem Creates.returns_packages {create : DocToken} {ps : List Package}
    (h : Creates i ts create us) :
    Returns packages i ts ps rest ↔ ∃ p? mid ps', Returns (package? create) i us p? mid ∧
      Returns packages i mid ps' rest ∧ ps = p?.toList ++ ps' := by
  simp only [Returns, h.outcome_packages]
  cases (package? create).outcome i us with
  | error e => simp [Except.bind]
  | ok x =>
    simp only [Except.bind, Except.ok.injEq, Prod.ext_iff]
    cases hmid : packages.outcome i x.2 with
    | error e =>
      simp only [Except.map, reduceCtorEq, false_iff]
      rintro ⟨p?, mid, ps', ⟨-, rfl⟩, hrest, -⟩
      rw [hmid] at hrest
      cases hrest
    | ok y =>
      simp only [Except.map, Except.ok.injEq, Prod.ext_iff]
      grind

/-- **A file is read as its outline.**  The induction is on what is left to be read;
    in the other direction it is on the outline. -/
theorem returns_packages_iff (hi : i.Scanned) {ps : List Package} :
    Returns packages i ts ps [] ↔
      ∃ closed cut?, Outline i ts closed cut? ∧ ps = closed ++ cut?.toList := by
  constructor
  · intro h
    generalize hn : ts.length = n
    induction n using Nat.strongRecOn generalizing ts ps with
    | _ n ih =>
      obtain ⟨create?, mid, hnext, hmore⟩ := returns_packages.1 h
      cases create? with
      | none =>
        obtain ⟨rfl, rfl⟩ := hmore
        exact ⟨[], none, .done hnext, rfl⟩
      | some create =>
        cases mid with
        | nil => exact absurd (returns_nextCreate?.1 hnext).2.2 (by simp)
        | cons t us =>
          obtain ⟨hfirst, -⟩ := returns_iterate_cons.1 hmore
          have hcreates : Creates i ts create us := ⟨t, hnext, hfirst⟩
          obtain ⟨p?, behind, ps', hpackage, hrest, rfl⟩ := hcreates.returns_packages.1 h
          have hlength := hnext.suffix.length_le
          have hlength' := hpackage.suffix.length_le
          simp only [List.length_cons] at hlength
          obtain ⟨closed, cut?, houtline, hps'⟩ := ih behind.length (by omega) hrest rfl
          by_cases hbody : (i.current us).kind = .keyword .body
          · rw [returns_package?, if_pos hbody] at hpackage
            obtain ⟨hskip, rfl⟩ := hpackage
            exact ⟨closed, cut?, .body hcreates hbody hskip houtline, hps'⟩
          · obtain ⟨p, rfl, hcloses | ⟨hcuts, rfl⟩⟩ := (returns_package?_spec hi hbody).1 hpackage
            · exact ⟨p :: closed, cut?, .closed hcreates hbody hcloses houtline, by simp [hps']⟩
            · obtain ⟨rfl, -⟩ := returns_packages_nil.1 hrest
              exact ⟨[], some p, .cutOff hcreates hbody hcuts, rfl⟩
  · rintro ⟨closed, cut?, houtline, rfl⟩
    induction houtline with
    | done hnext => exact returns_packages.2 ⟨none, [], hnext, rfl, rfl⟩
    | body hcreates hbody hskip _ ih =>
      refine hcreates.returns_packages.2 ⟨none, _, _, ?_, ih, rfl⟩
      rw [returns_package?, if_pos hbody]
      exact ⟨hskip, rfl⟩
    | closed hcreates hbody hcloses _ ih =>
      refine hcreates.returns_packages.2 ⟨some _, _, _, ?_, ih, rfl⟩
      exact (returns_package?_spec hi hbody).2 ⟨_, rfl, .inl hcloses⟩
    | cutOff hcreates hbody hcuts =>
      refine hcreates.returns_packages.2 ⟨some _, [], [], ?_, returns_packages_nil.2 ⟨rfl, rfl⟩, rfl⟩
      exact (returns_package?_spec hi hbody).2 ⟨_, rfl, .inr ⟨hcuts, rfl⟩⟩

/-! ## One outline -/

theorem Returns.unique {α : Type} {p : Parser α} {a b : α} {rest' : List DocToken}
    (h : Returns p i ts a rest) (h' : Returns p i ts b rest') : a = b ∧ rest = rest' := by
  have heq := Except.ok.inj (h.symm.trans h')
  exact ⟨congrArg Prod.fst heq, congrArg Prod.snd heq⟩

/-- Where no statement starts: before the word `end`, and at the end of the input. -/
def Halts (i : Input) (ts : List DocToken) : Prop :=
  ∀ t us, ts = t :: us → (i.current us).kind = .keyword .end_

theorem Rounds.unique {found found₁ found₂ : Found} {rest₁ rest₂ : List DocToken}
    (h₁ : Rounds i found ts found₁ rest₁) (h₂ : Rounds i found ts found₂ rest₂)
    (hrest₁ : Halts i rest₁) (hrest₂ : Halts i rest₂) : found₁ = found₂ ∧ rest₁ = rest₂ := by
  induction h₁ with
  | refl found ts =>
    cases h₂ with
    | refl => exact ⟨rfl, rfl⟩
    | step _ hend => exact absurd (hrest₁ _ _ rfl) hend
  | step _ hend hitem _ ih =>
    cases h₂ with
    | refl => exact absurd (hrest₂ _ _ rfl) hend
    | step _ _ hitem' hmore =>
      obtain ⟨rfl, rfl⟩ := hitem.unique hitem'
      exact ih hmore hrest₁

theorem Closes.unique {create : DocToken} {p q : Package} {rest' : List DocToken}
    (h : Closes i create us p rest) (h' : Closes i create us q rest') : p = q ∧ rest = rest' := by
  obtain ⟨name, opening, found, t, e, behind, hname, hrounds, hend, hlast, hp⟩ := h
  obtain ⟨name', opening', found', t', e', behind', hname', hrounds', hend', hlast', hq⟩ := h'
  obtain ⟨rfl, rfl⟩ := hname.unique hname'
  obtain ⟨rfl, hbehind⟩ := hrounds.unique hrounds' (by rintro _ _ ⟨⟩; exact hend)
    (by rintro _ _ ⟨⟩; exact hend')
  obtain ⟨-, hbehind⟩ := List.cons.inj hbehind
  rw [hbehind] at hlast
  obtain ⟨hstop, hrest⟩ := hlast.unique hlast'
  rw [hp, hq, hstop]
  exact ⟨rfl, hrest⟩

theorem Closes.not_cutsOff {create : DocToken} {p q : Package} (h : Closes i create us p rest) :
    ¬ CutsOff i create us q := by
  rintro ⟨name', opening', found', hname', hrounds', -⟩
  obtain ⟨name, opening, found, t, e, behind, hname, hrounds, hend, -⟩ := h
  obtain ⟨rfl, rfl⟩ := hname.unique hname'
  obtain ⟨-, hnil⟩ := hrounds.unique hrounds' (by rintro _ _ ⟨⟩; exact hend) (by rintro _ _ ⟨⟩)
  cases hnil

theorem CutsOff.unique {create : DocToken} {p q : Package} (h : CutsOff i create us p)
    (h' : CutsOff i create us q) : p = q := by
  obtain ⟨name, opening, found, hname, hrounds, rfl⟩ := h
  obtain ⟨name', opening', found', hname', hrounds', rfl⟩ := h'
  obtain ⟨rfl, rfl⟩ := hname.unique hname'
  obtain ⟨rfl, -⟩ := hrounds.unique hrounds' (by rintro _ _ ⟨⟩) (by rintro _ _ ⟨⟩)
  rfl

theorem Creates.unique {create create' : DocToken} {us' : List DocToken}
    (h : Creates i ts create us) (h' : Creates i ts create' us') : create = create' ∧ us = us' := by
  obtain ⟨t, hnext, -⟩ := h
  obtain ⟨t', hnext', -⟩ := h'
  obtain ⟨hcreate, hus⟩ := hnext.unique hnext'
  exact ⟨Option.some.inj hcreate, (List.cons.inj hus).2⟩

theorem Creates.not_none {create : DocToken} (h : Creates i ts create us) :
    ¬ Returns nextCreate? i ts none rest := by
  obtain ⟨t, hnext, -⟩ := h
  intro hnone
  cases (hnext.unique hnone).1

/-- An input has one outline. -/
theorem Outline.unique {closed closed' : List Package} {cut? cut?' : Option Package}
    (h : Outline i ts closed cut?) (h' : Outline i ts closed' cut?') :
    closed = closed' ∧ cut? = cut?' := by
  induction h generalizing closed' with
  | done hnone =>
    cases h' with
    | done => exact ⟨rfl, rfl⟩
    | body hcreates | closed hcreates | cutOff hcreates => exact absurd hnone hcreates.not_none
  | body hcreates hbody hskip _ ih =>
    cases h' with
    | done hnone => exact absurd hnone hcreates.not_none
    | body hcreates' _ hskip' hmore =>
      obtain ⟨rfl, rfl⟩ := hcreates.unique hcreates'
      obtain ⟨-, rfl⟩ := hskip.unique hskip'
      exact ih hmore
    | closed hcreates' hbody' | cutOff hcreates' hbody' =>
      obtain ⟨rfl, rfl⟩ := hcreates.unique hcreates'
      exact absurd hbody hbody'
  | closed hcreates hbody hcloses _ ih =>
    cases h' with
    | done hnone => exact absurd hnone hcreates.not_none
    | body hcreates' hbody' =>
      obtain ⟨rfl, rfl⟩ := hcreates.unique hcreates'
      exact absurd hbody' hbody
    | closed hcreates' _ hcloses' hmore =>
      obtain ⟨rfl, rfl⟩ := hcreates.unique hcreates'
      obtain ⟨rfl, rfl⟩ := hcloses.unique hcloses'
      obtain ⟨rfl, rfl⟩ := ih hmore
      exact ⟨rfl, rfl⟩
    | cutOff hcreates' _ hcuts =>
      obtain ⟨rfl, rfl⟩ := hcreates.unique hcreates'
      exact absurd hcuts hcloses.not_cutsOff
  | cutOff hcreates hbody hcuts =>
    cases h' with
    | done hnone => exact absurd hnone hcreates.not_none
    | body hcreates' hbody' =>
      obtain ⟨rfl, rfl⟩ := hcreates.unique hcreates'
      exact absurd hbody' hbody
    | closed hcreates' _ hcloses =>
      obtain ⟨rfl, rfl⟩ := hcreates.unique hcreates'
      exact absurd hcuts hcloses.not_cutsOff
    | cutOff hcreates' _ hcuts' =>
      obtain ⟨rfl, rfl⟩ := hcreates.unique hcreates'
      obtain rfl := hcuts.unique hcuts'
      exact ⟨rfl, rfl⟩

/-! ## Where packages start and end -/

/-- The word `create` of a statement stands in the source. -/
theorem Creates.opened (hi : i.Commented) (hts : ts <:+ i.tokens) {create : DocToken} {p : Package}
    (h : Creates i ts create us) (hp : p.first = create.span.start) : p.Opened i.raw := by
  obtain ⟨t, hnext, -⟩ := h
  obtain ⟨before, between, t, after, htokens, -, hkind, -⟩ := (opens_of_nextCreate? hi hts hnext).1
  exact ⟨create.token, Input.Scanned.mem_raw (by simp [htokens]), hkind, hp⟩

/-- The parser finds the end of a package at the word that closes it. -/
theorem closedBy_of_packageEnd (hi : i.Scanned) {e : DocToken} (hts : e :: us <:+ i.tokens)
    (hend : e.kind = .keyword .end_) {p : Package}
    (h : Returns (packageEnd p.name) i (e :: us) p.last rest) : p.ClosedBy i.raw e.token := by
  obtain ⟨before, hbefore⟩ := hts
  have hplain : i.raw.filter (·.kind ≠ .comment) =
      plainTokens before ++ e.token :: plainTokens us := by
    rw [← hi.plainTokens_eq, ← hbefore]
    simp [plainTokens]
  refine ⟨_, _, hplain, hend, ?_⟩
  obtain ⟨-, -, hstop⟩ := returns_packageEnd.1 h
  cases us with
  | nil =>
    rw [if_neg (by simp [Input.current, hi.eof_kind])] at hstop
    exact .inl hstop
  | cons n us =>
    split at hstop
    · rename_i hident
      exact .inr ⟨n.token, rfl, hident, hstop⟩
    · exact .inl hstop

/-- A specification that is closed ends with its closing word. -/
theorem Closes.closed (hi : i.Scanned) (hus : us <:+ i.tokens) {create : DocToken} {p : Package}
    (h : Closes i create us p rest) : p.Closed i.raw := by
  obtain ⟨name, opening, found, t, e, behind, hname, hrounds, hend, hlast, hp⟩ := h
  obtain rfl : p.name = name := congrArg Package.name hp
  have hsuffix : e :: behind <:+ i.tokens :=
    (List.suffix_cons t _).trans ((hrounds.suffix.trans hname.suffix).trans hus)
  exact ⟨e.token, closedBy_of_packageEnd hi hsuffix hend hlast⟩

theorem Closes.suffix {create : DocToken} {p : Package} (h : Closes i create us p rest) :
    rest <:+ us := by
  obtain ⟨name, opening, found, t, e, behind, hname, hrounds, -, hlast, -⟩ := h
  exact hlast.suffix.trans ((List.suffix_cons t _).trans (hrounds.suffix.trans hname.suffix))

/-- In an outline all packages start at a word `create`, and those that are closed end
    with their closing words. -/
theorem Outline.packages (hi : i.Commented) {closed : List Package} {cut? : Option Package}
    (h : Outline i ts closed cut?) (hts : ts <:+ i.tokens) :
    (∀ p ∈ closed ++ cut?.toList, p.Opened i.raw) ∧ ∀ p ∈ closed, p.Closed i.raw := by
  induction h with
  | done => simp
  | body hcreates _ hskip _ ih => exact ih (hskip.suffix.trans (hcreates.suffix.trans hts))
  | @closed ts us rest create p closed cut? hcreates _ hcloses _ ih =>
    have hus : us <:+ i.tokens := hcreates.suffix.trans hts
    obtain ⟨hopened, hclosed⟩ := ih (hcloses.suffix.trans hus)
    have hfirst : p.first = create.span.start := by
      obtain ⟨name, opening, found, t, e, behind, -, -, -, -, hp⟩ := hcloses
      exact congrArg Package.first hp
    exact ⟨List.forall_mem_cons.2 ⟨hcreates.opened hi hts hfirst, hopened⟩,
      List.forall_mem_cons.2 ⟨hcloses.closed hi.toScanned hus, hclosed⟩⟩
  | cutOff hcreates _ hcuts =>
    obtain ⟨name, opening, found, -, -, rfl⟩ := hcuts
    simpa using hcreates.opened hi hts rfl

/-! ## The declarations of a file -/

section
variable {Q : Item → Prop}

theorem Rounds.forall_items {found found' : Found} (h : Rounds i found ts found' rest)
    (hts : ts <:+ i.tokens)
    (hitem : ∀ ts item rest, ts <:+ i.tokens → Returns item? i ts (some item) rest → Q item)
    (hfound : ∀ item ∈ found.items, Q item) : ∀ item ∈ found'.items, Q item := by
  induction h with
  | refl => exact hfound
  | @step found found' t us mid rest item? _ _ hreturns _ ih =>
    have hus : us <:+ i.tokens := (List.suffix_cons t us).trans hts
    refine ih (hreturns.suffix.trans hus) fun item hmem => ?_
    rcases List.mem_append.1 hmem with hmem | hmem
    · obtain rfl := Option.mem_toList.1 hmem
      exact hitem us item mid hus hreturns
    · exact hfound item hmem

/-- What holds of the declarations that are read at any place holds of all declarations
    of a file. -/
theorem Outline.forall_items {closed : List Package} {cut? : Option Package}
    (h : Outline i ts closed cut?) (hts : ts <:+ i.tokens)
    (hitem : ∀ ts item rest, ts <:+ i.tokens → Returns item? i ts (some item) rest → Q item) :
    ∀ p ∈ closed ++ cut?.toList, ∀ item ∈ p.items, Q item := by
  -- the declarations of one package
  have hspec {us opening rest : List DocToken} {name : Ident} {found : Found}
      (hus : us <:+ i.tokens) (hname : Returns packageName i us name opening)
      (hrounds : Rounds i ⟨[], (i.current opening).span.start⟩ opening found rest)
      (doc : Option CommentGroup) (first last : Nat) :
      ∀ item ∈ (Package.ofItems doc name first last found.items.reverse).items, Q item := by
    intro item hmem
    refine hrounds.forall_items (hname.suffix.trans hus) hitem (by simp) item ?_
    exact List.mem_reverse.1 (Package.mem_of_mem_items hmem)
  induction h with
  | done => simp
  | body hcreates _ hskip _ ih => exact ih (hskip.suffix.trans (hcreates.suffix.trans hts))
  | closed hcreates _ hcloses _ ih =>
    have hus := hcreates.suffix.trans hts
    refine List.forall_mem_cons.2 ⟨?_, ih (hcloses.suffix.trans hus)⟩
    obtain ⟨name, opening, found, t, e, behind, hname, hrounds, -, -, hp⟩ := hcloses
    rw [hp]
    exact hspec hus hname hrounds _ _ _
  | cutOff hcreates _ hcuts =>
    obtain ⟨name, opening, found, hname, hrounds, rfl⟩ := hcuts
    simpa using hspec (hcreates.suffix.trans hts) hname hrounds _ _ _

end

end Parser

/-! ## Files -/

/-- **Packages are closed, up to the last one.**  The packages of a file that is parsed
    are its specifications: all that are closed by their `end`, in order, and behind
    them the one that the end of the input cuts off, if there is such a one.  Every
    package starts at a word `create`, and every closed one ends with its `end` or
    with its name right behind that. -/
theorem parse_closed {file : String} {source : ByteArray} {f : SourceFile}
    (h : (parse file source).result = .ok f) :
    ∃ text raw closed cut?, source = text.utf8Encode ∧ tokens? source = some raw ∧
      Parser.Outline (Input.ofText file text) (Input.ofText file text).tokens closed cut? ∧
      f.packages = closed ++ cut?.toList ∧ (f.packages.length = closed.length ↔ cut? = none) ∧
      (∀ p ∈ f.packages, p.Opened raw) ∧ ∀ p ∈ closed, p.Closed raw := by
  obtain ⟨text, rfl, hsize, hfault, hreturns⟩ := text_of_parse h
  have hi := Input.commented_ofText file hsize
  obtain ⟨closed, cut?, houtline, hpackages⟩ := (Parser.returns_packages_iff hi.toScanned).1 hreturns
  obtain ⟨hopened, hclosed⟩ := houtline.packages hi (List.suffix_refl _)
  refine ⟨text, _, closed, cut?, rfl, hi.tokens?_source hfault, houtline, hpackages, ?_,
    hpackages ▸ hopened, hclosed⟩
  rw [hpackages]
  cases cut? <;> simp

/-- A package that is closed, and one that the end of the input cuts off. -/
def cutOffSource : ByteArray := "create package p is end p;\ncreate package q is v number;".toUTF8

theorem parse_closed_cut :
    ∃ f, (parse "a.pks" cutOffSource).result = .ok f ∧ f.packages.map (·.name.name) = ["p", "q"] ∧
      ∃ text raw closed cut?, cutOffSource = text.utf8Encode ∧ tokens? cutOffSource = some raw ∧
        Parser.Outline (Input.ofText "a.pks" text) (Input.ofText "a.pks" text).tokens closed cut? ∧
        f.packages = closed ++ cut?.toList ∧ (f.packages.length = closed.length ↔ cut? = none) ∧
        (∀ p ∈ f.packages, p.Opened raw) ∧ ∀ p ∈ closed, p.Closed raw := by
  have hparse : (parse "a.pks" cutOffSource).result.toOption.map
      (·.packages.map (·.name.name)) = some ["p", "q"] := by
    decide +kernel
  obtain ⟨f, hresult, hvalue⟩ := exists_ok_of_toOption hparse
  exact ⟨f, hresult, hvalue, parse_closed hresult⟩

/-- A package without a closing word. -/
def unclosedSource : ByteArray := "create package p is v number;".toUTF8

/-- A package is returned that no word closes: there is no `end` in its source. -/
theorem unclosed_returned :
    ∃ f raw, (parse "x.pks" unclosedSource).result = .ok f ∧ tokens? unclosedSource = some raw ∧
      ∃ p ∈ f.packages, ¬ p.Closed raw := by
  have hparse : (parse "x.pks" unclosedSource).result.toOption.map (·.packages.length) = some 1 := by
    decide +kernel
  have htokens : (tokens? unclosedSource).map (·.all (·.kind ≠ .keyword .end_)) = some true := by
    decide +kernel
  obtain ⟨raw, hraw, hend⟩ := Option.map_eq_some_iff.1 htokens
  obtain ⟨f, hresult, hlength⟩ := exists_ok_of_toOption hparse
  obtain ⟨p, hp⟩ := List.length_eq_one_iff.1 hlength
  refine ⟨f, raw, hresult, hraw, p, by simp [hp], ?_⟩
  rintro ⟨e, before, after, hfilter, he, -⟩
  have hmem : e ∈ raw.filter (·.kind ≠ .comment) := by
    rw [hfilter]
    simp
  have hne := List.all_eq_true.1 hend e (List.mem_filter.1 hmem).1
  exact absurd he (by simpa using hne)

end PackageDoc
