/-
  Files one behind the other.

  Nothing that a parser has read in one file reaches into the next.  If a source
  ends with a semicolon, outside all packages, then a source on the lines behind
  it has the packages that it has by itself, moved by the bytes in front of it, and
  the errors that it has by itself, moved by the lines in front (`parse_append`).

  `Parser.Finds i ts ps` is the search for packages as a relation: from `ts` on it
  finds the packages `ps`, each of them closed, and then no other.  One package
  after the other, a search goes on in a longer input as it does in the shorter
  one (`Finds.packagesFrom_append`).
-/
import PackageDoc.Proofs.Parser.Local
import PackageDoc.Proofs.Parser.Shift

namespace PackageDoc

open Text

/-! ## Searching -/

namespace Parser

/-- Passes over the package at hand and moves to the next one.  The result is
    whether the end of the input comes on the way, and not in the package. -/
def searchStep (create : DocToken) : Parser (DocToken ⊕ Bool) := do
  let _ ← package? create
  if ← atEnd then return .inr false
  else
    match ← nextCreate? with
    | some create => return .inl create
    | none => return .inr true

/-- Whether the end of the input comes while a package is searched for. -/
def endsSearching : Parser Bool := do
  match ← nextCreate? with
  | some create => iterate searchStep (fun _ => false) create
  | none => return true

variable {i j : Input} {more ts us rest : List DocToken}

/-- From `ts` on, the search finds packages that are all closed, and comes to the
    end of the input behind them. -/
inductive Finds (i : Input) : List DocToken → List Package → Prop where
  | none {ts : List DocToken} : Returns nextCreate? i ts none [] → Finds i ts []
  | package {ts us rest : List DocToken} {create t : DocToken} {package : Option Package}
      {ps : List Package} :
      Returns nextCreate? i ts (some create) (t :: us) →
      Returns (package? create) i us package rest → rest ≠ [] → Finds i rest ps →
      Finds i ts (package.toList ++ ps)

theorem returns_searchStep {create : DocToken} {x : DocToken ⊕ Bool} :
    Returns (searchStep create) i ts x rest ↔ ∃ package mid,
      Returns (package? create) i ts package mid ∧
      if mid = [] then x = .inr false ∧ rest = mid
      else ∃ create?, Returns nextCreate? i mid create? rest ∧
        x = match create? with
          | some create => .inl create
          | none => .inr true := by
  simp only [searchStep, returns_bind (p := package? create), returns_atEnd_bind, returns_ite,
    List.isEmpty_iff, returns_pure, returns_bind (p := nextCreate?)]
  refine exists_congr fun package => exists_congr fun mid => and_congr_right fun _ => ?_
  split
  · rfl
  · constructor
    · rintro ⟨create?, mid', hnext, hx⟩
      cases create? <;> obtain ⟨rfl, rfl⟩ := returns_pure.1 hx <;> exact ⟨_, hnext, rfl⟩
    · rintro ⟨create?, hnext, rfl⟩
      exact ⟨create?, rest, hnext, by cases create? <;> simp⟩

/-- A search that is under way at the end of the input has found packages.  The
    induction is on what is left to be read. -/
theorem finds_of_endsSearching (h : Returns endsSearching i ts true rest) :
    ∃ ps, Finds i ts ps := by
  generalize hn : ts.length = n
  induction n using Nat.strongRecOn generalizing ts with
  | _ n ih =>
    obtain ⟨create?, mid, hnext, hmore⟩ := returns_bind.1 h
    cases create? with
    | none =>
      obtain rfl := eq_nil_of_nextCreate? hnext
      exact ⟨[], .none hnext⟩
    | some create =>
      cases mid with
      | nil => cases (returns_iterate_nil.1 hmore).1
      | cons t us =>
        obtain ⟨-, x, mid, hround, hmore⟩ := returns_iterate_cons.1 hmore
        obtain ⟨package, behind, hpackage, hx⟩ := returns_searchStep.1 hround
        by_cases hend : behind = []
        · rw [if_pos hend] at hx
          obtain ⟨rfl, rfl⟩ := hx
          cases (returns_pure.1 hmore).1
        · rw [if_neg hend] at hx
          obtain ⟨create?, hnext', rfl⟩ := hx
          have hagain : Returns endsSearching i behind true rest := by
            refine returns_bind.2 ⟨create?, mid, hnext', ?_⟩
            cases create? <;> exact hmore
          have hshorter := hnext.suffix.length_le
          have hshorter' := hpackage.suffix.length_le
          simp only [List.length_cons] at hshorter
          obtain ⟨ps, hps⟩ := ih behind.length (by omega) hagain rfl
          exact ⟨_, .package hnext hpackage hend hps⟩

/-! ## The loop -/

/-- The search behind the packages `done` (latest first). -/
def searchFrom (done : List Package) : Parser (List Package) := do
  match ← nextCreate? with
  | some create => iterate packageStep (fun s => s.packages.reverse) ⟨create, done⟩
  | none => return done.reverse

theorem packages_eq : packages = searchFrom [] := rfl

/-- A round of the loop is a package, and the search goes on behind it. -/
theorem outcome_packageLoop (s : Search) (t : DocToken) (ts : List DocToken) :
    (iterate packageStep (fun s => s.packages.reverse) s).outcome i (t :: ts) =
      (advance >>= fun _ => package? s.create >>= fun package =>
        searchFrom (package.toList ++ s.packages)).outcome i (t :: ts) := by
  simp only [outcome_iterate_cons, outcome_bind, packageStep, searchFrom]
  cases advance.outcome i (t :: ts) with
  | error e => rfl
  | ok x =>
    cases hpackage : (package? s.create).outcome i x.2 with
    | error e => simp [Except.bind, hpackage]
    | ok y =>
      cases hnext : nextCreate?.outcome i y.2 with
      | error e => simp [Except.bind, hpackage, hnext]
      | ok z =>
        obtain ⟨create?, mid⟩ := z
        cases create? <;> simp [Except.bind, hpackage, hnext, outcome_pure]

/-- What has been found stays at the front of what is found.  The induction is on
    what is left to be read. -/
theorem outcome_searchFrom (done : List Package) (ts : List DocToken) :
    (searchFrom done).outcome i ts =
      (packages.outcome i ts).map fun x => (done.reverse ++ x.1, x.2) := by
  generalize hn : ts.length = n
  induction n using Nat.strongRecOn generalizing done ts with
  | _ n ih =>
    simp only [packages_eq, searchFrom, outcome_bind]
    cases hnext : nextCreate?.outcome i ts with
    | error e => rfl
    | ok x =>
      obtain ⟨create?, mid⟩ := x
      have hmid := (Parser.suffix nextCreate? hnext).length_le
      cases create? with
      | none => simp [Except.bind, Except.map, outcome_pure]
      | some create =>
        cases mid with
        | nil => simp [Except.bind, Except.map, outcome_iterate_nil]
        | cons t us =>
          simp only [Except.bind, outcome_packageLoop, outcome_bind]
          cases hadvance : advance.outcome i (t :: us) with
          | error e => rfl
          | ok x =>
            obtain rfl : x.2 = us := (returns_advance.1 hadvance).1
            cases hpackage : (package? create).outcome i x.2 with
            | error e => simp [Except.map, hpackage]
            | ok y =>
              have hy := (Parser.suffix (package? create) hpackage).length_le
              simp only [List.length_cons] at hmid
              have hfound := ih y.2.length (by omega) (y.1.toList ++ done) y.2 rfl
              have hfirst := ih y.2.length (by omega) (y.1.toList ++ []) y.2 rfl
              simp only [hpackage, hfound, hfirst]
              cases packages.outcome i y.2 <;> simp [Except.map]

end Parser

/-- The packages from `ts` on, where the parser has just come to `ts`. -/
def Input.packagesFrom (i : Input) (ts : List DocToken) : Except ParseError (List Package) :=
  match ts, i.fault? with
  | [], some e => .error (i.scanError e)
  | ts, _ => (Parser.packages.outcome i ts).map Prod.fst

section
variable {i j : Input} {more ts : List DocToken}

theorem Input.packagesFrom_of_ne_nil (h : ts ≠ []) :
    i.packagesFrom ts = (Parser.packages.outcome i ts).map Prod.fst := by
  cases ts with
  | nil => exact absurd rfl h
  | cons t ts => rfl

theorem Input.parse_result_eq :
    i.parse.result = (i.packagesFrom i.tokens).map fun ps => ⟨i.file, ps⟩ := by
  unfold Input.parse Input.packagesFrom
  cases hts : i.tokens with
  | nil =>
    cases hfault : i.fault? with
    | none =>
      simp only [Parser.outcome]
      cases (Parser.packages.run i []).outcome <;> rfl
    | some e => rfl
  | cons t ts =>
    simp only [Parser.outcome]
    cases (Parser.packages.run i (t :: ts)).outcome <;> rfl

/-! ## A longer input -/

namespace Parser

theorem outcome_nextCreate? (ts : List DocToken) :
    nextCreate?.outcome i ts =
      (arrive i (splitPackage none ts).1 (splitPackage none ts).2).outcome.bind fun x =>
        .ok (if x.2.isEmpty then none else x.1.foldl pendingCreate none, x.2) := by
  simp only [nextCreate?, outcome_bind]
  rfl

/-- Tokens without a package that end with a semicolon are of no account in the
    search. -/
theorem packagesFrom_skip (hts : (splitPackage none ts).2 = []) (hne : ts ≠ [])
    (hlast : ts.getLast?.map DocToken.kind = some (.op .semicolon)) (more : List DocToken) :
    j.packagesFrom (ts ++ more) = j.packagesFrom more := by
  have hfold : ts.foldl pendingCreate none = none := foldl_pendingCreate_of_semicolon hlast
  have hsplit := splitPackage_append_of_nil hts more
  rw [hfold] at hsplit
  have hpackages : packages.outcome j (ts ++ more) =
      (nextCreate?.outcome j (ts ++ more)).bind _ := outcome_bind _ _
  rw [Input.packagesFrom_of_ne_nil (by simp [hne]), hpackages, outcome_nextCreate?, hsplit]
  cases more with
  | nil =>
    obtain ⟨t, us, rfl⟩ := List.exists_cons_of_ne_nil hne
    cases hfault : j.fault? <;>
      simp [splitPackage, arrive, Input.packagesFrom, hfault, Except.bind, Except.map, outcome_pure,
        outcome_packages_nil]
  | cons u us =>
    rw [Input.packagesFrom_of_ne_nil (by simp), packages, outcome_bind, outcome_nextCreate?]
    have happend := splitPackage_append none (u :: us)
    generalize splitPackage none (u :: us) = split at happend ⊢
    obtain ⟨before, rest⟩ := split
    cases rest with
    | nil =>
      obtain rfl : before = u :: us := by simpa using happend
      cases hfault : j.fault? <;>
        simp [arrive, hfault, Except.bind]
    | cons v rest => simp [arrive, Except.bind, List.foldl_append, hfold]

/-- **A search goes on behind the packages that it has found.**  The induction is
    on these packages. -/
theorem Finds.packagesFrom_append {ps : List Package} (h : Finds i ts ps)
    (hgoes : i.GoesOn j more) (hts : ts <:+ i.tokens) (hne : ts ≠ [])
    (hlast : i.tokens.getLast?.map DocToken.kind = some (.op .semicolon)) :
    j.packagesFrom (ts ++ more) = (j.packagesFrom more).map (ps ++ ·) := by
  induction h with
  | @none ts hnext =>
    obtain ⟨before, hbefore⟩ := hts
    rw [← hbefore, List.getLast?_append_of_ne_nil _ hne] at hlast
    rw [packagesFrom_skip (returns_nextCreate?.1 hnext).1.symm hne hlast]
    cases j.packagesFrom more <;> simp [Except.map]
  | @package ts us rest create t package ps hnext hpackage hrest hfinds ih =>
    have hus : us ≠ [] := ne_nil_of_suffix hpackage.suffix hrest
    have hsuffix : t :: us <:+ i.tokens := hnext.suffix.trans hts
    have hsuffix' : us <:+ i.tokens := (List.suffix_cons t us).trans hsuffix
    have hnext' : Returns nextCreate? j (ts ++ more) (some create) (t :: us ++ more) :=
      (Local.nextCreate? ts _ _ hts (by simp)).1 hnext
    have hpackage' : Returns (package? create) j (us ++ more) package (rest ++ more) :=
      (Local.package? hgoes.shares create us _ _ hsuffix' hrest).1 hpackage
    have hadvance : Returns advance j (t :: us ++ more) () (us ++ more) :=
      returns_advance.2 ⟨rfl, reaches_append hus⟩
    have hround : packages.outcome j (ts ++ more) =
        (searchFrom (package.toList ++ [])).outcome j (rest ++ more) := by
      rw [packages, outcome_bind, hnext']
      simp only [Except.bind]
      rw [List.cons_append, outcome_packageLoop, outcome_bind, ← List.cons_append, hadvance]
      simp only [Except.bind, outcome_bind]
      rw [hpackage']
    have hbehind := ih (hpackage.suffix.trans hsuffix') hrest
    rw [Input.packagesFrom_of_ne_nil (by simp [hrest])] at hbehind
    rw [Input.packagesFrom_of_ne_nil (by simp [hne]), hround, outcome_searchFrom]
    have hfirst : ((packages.outcome j (rest ++ more)).map fun x =>
        ((package.toList ++ []).reverse ++ x.1, x.2)).map Prod.fst =
          ((packages.outcome j (rest ++ more)).map Prod.fst).map (package.toList ++ ·) := by
      cases packages.outcome j (rest ++ more) <;> cases package <;> rfl
    rw [hfirst, hbehind]
    cases j.packagesFrom more <;> simp [Except.map]

end Parser

end

/-! ## Sources -/

/-- Whether a source ends while a package is searched for, and not in one. -/
def endsSearching (file : String) (source : ByteArray) : Bool :=
  match readSource source with
  | .error _ => false
  | .ok text =>
    let i := Input.ofText file text
    match Parser.endsSearching.outcome i i.tokens with
    | .error _ => false
    | .ok (searching, _) => searching

theorem finds_ofText {file : String} {text : List Char}
    (hsize : text.utf8Encode.size ≤ maxOffset) (h : endsSearching file text.utf8Encode = true) :
    ∃ ps, Parser.Finds (Input.ofText file text) (Input.ofText file text).tokens ps := by
  simp only [endsSearching, readSource_eq_ok_iff.2 ⟨hsize, rfl⟩] at h
  split at h
  · cases h
  · rename_i searching rest hreturns
    subst h
    exact Parser.finds_of_endsSearching hreturns

/-- The last token of a text that ends with a semicolon. -/
theorem getLast?_tokens_ofText (file : String) {front : List Char} {ts : List Token}
    (h : Complete front ts) (hlast : ts.getLast?.map Token.kind = some (.op .semicolon)) :
    (Input.ofText file front).tokens.getLast?.map DocToken.kind = some (.op .semicolon) := by
  obtain ⟨t, ht, hkind⟩ := Option.map_eq_some_iff.1 hlast
  obtain ⟨before, rfl⟩ := List.getLast?_eq_some_iff.1 ht
  have hplain := Input.plainTokens_ofText file front
  rw [h.scanText, List.filter_append, List.filter_cons_of_pos (by simp [hkind]), List.filter_nil]
    at hplain
  have hend := congrArg List.getLast? hplain
  rw [plainTokens, List.getLast?_map, List.getLast?_concat] at hend
  obtain ⟨d, hd, rfl⟩ := Option.map_eq_some_iff.1 hend
  rw [hd]
  exact congrArg some hkind

/-- The packages of a text behind another, as they are found from its first token
    on. -/
theorem packagesFrom_behind (file : String) {front : List Char} {ts : List Token}
    (h : Complete front ts) (text : List Char) :
    (Input.ofText file (front ++ '\n' :: text)).packagesFrom
        ((Input.ofText file text).tokens.map
          (·.shift (byteLength front + 1) (1 + newlines front))) =
      (((Input.ofText file text).packagesFrom (Input.ofText file text).tokens).map fun ps =>
        ps.map (·.recast (.shift (byteLength front + 1)))).mapError
          (·.shift (1 + newlines front)) := by
  have hpackages := outcome_packages_behind file h text
  by_cases hnil : (Input.ofText file text).tokens = []
  · rw [hnil, List.map_nil]
    rcases (ofText_behind file h text).fault with ⟨hi, hj⟩ | ⟨e, e', hi, hj, herror⟩
    · simp only [Input.packagesFrom, hi, hj, Parser.outcome_packages_nil]
      rfl
    · simp only [Input.packagesFrom, hi, hj, herror]
      rfl
  · rw [Input.packagesFrom_of_ne_nil (by simpa using hnil), Input.packagesFrom_of_ne_nil hnil,
      hpackages]
    cases Parser.packages.outcome (Input.ofText file text) (Input.ofText file text).tokens <;> rfl

/-- Bytes that are no text are found so behind another text, further on. -/
theorem parse_invalid_behind {file : String} (hfile : file ≠ "") (front : List Char)
    {source : ByteArray} {s : ScanError} (h : readSource source = .error s)
    (hsize : front.utf8Encode.size + 1 + source.size ≤ maxOffset) :
    ∃ e, (parse file source).result = .error e ∧
      (parse file (front.utf8Encode ++ "\n".toUTF8 ++ source)).result =
        .error (e.shift (1 + newlines front)) := by
  have hfront : front.utf8Encode ++ "\n".toUTF8 = (front ++ ['\n']).utf8Encode := by
    rw [List.utf8Encode_append]
    rfl
  refine ⟨_, by rw [parse_of_error hfile h], ?_⟩
  rw [← size_behind, hfront] at hsize
  rcases readSource_eq_error h with ⟨hlarge, -⟩ | ⟨-, pos, hdecode, rfl⟩
  · rw [ByteArray.size_append] at hsize
    omega
  have hbehind := readSource_of_le hsize (decode_append_error (front ++ ['\n']) hdecode)
  rw [hfront, parse_of_error hfile hbehind, ← length_toList, toList_append,
    List.take_length_add_append, List.count_append, count_utf8Encode]
  simp only [ParseError.shift, newlines, List.count_append, List.count_cons_self, List.count_nil]
  congr 2
  omega

/-- The packages that a search has found are those of the source. -/
theorem packages_of_finds {file : String} {front : List Char} {ts : List Token} {f : SourceFile}
    {ps : List Package} (h : Complete front ts)
    (hlast : ts.getLast?.map Token.kind = some (.op .semicolon))
    (hf : (Input.ofText file front).parse.result = .ok f)
    (hps : Parser.Finds (Input.ofText file front) (Input.ofText file front).tokens ps) :
    f.packages = ps := by
  have hend := getLast?_tokens_ofText file h hlast
  have hgoes : (Input.ofText file front).GoesOn (Input.ofText file front) [] :=
    ⟨Input.scanned_ofText file front, ⟨[], by simp⟩, by simp⟩
  have hne : (Input.ofText file front).tokens ≠ [] := by
    intro hnil
    rw [hnil] at hend
    cases hend
  have hfault : (Input.ofText file front).fault? = none :=
    Input.fault?_ofText_eq_none file (by rw [h.scanText])
  have hfinds := hps.packagesFrom_append hgoes (List.suffix_refl _) hne hend
  rw [List.append_nil] at hfinds
  rw [Input.parse_result_eq, hfinds] at hf
  simp only [Input.packagesFrom, hfault, Parser.outcome_packages_nil, Except.map,
    List.append_nil, Except.ok.injEq] at hf
  rw [← hf]

/-- **A source behind another is parsed as it is by itself**, while both together are
    below four gigabytes.  The packages of the two sources follow one another, those of
    the second moved by the bytes in front of it, and an error of the second is moved
    by the lines in front of it. -/
theorem parse_append {file : String} {a : ByteArray} {f : SourceFile} {ts : List Token}
    (ha : (parse file a).result = .ok f) (htokens : tokens? a = some ts)
    (hlast : ts.getLast?.map Token.kind = some (.op .semicolon))
    (hsearch : endsSearching file a = true) {b : ByteArray}
    (hsize : a.size + 1 + b.size ≤ maxOffset) :
    (parse file (a ++ "\n".toUTF8 ++ b)).result =
      match (parse file b).result with
      | .ok g => .ok ⟨file, f.packages ++ g.packages.map (·.recast (.shift (a.size + 1)))⟩
      | .error e => .error (e.shift (1 + a.toList.count 10)) := by
  obtain ⟨front, rfl, hcomplete⟩ := complete_of_tokens? htokens hlast
  have hfile : file ≠ "" := (parse_eq_ok_iff.1 ha).1
  rw [count_utf8Encode]
  cases hread : readSource b with
  | error s =>
    obtain ⟨e, herror, hbehind⟩ := parse_invalid_behind hfile front hread hsize
    rw [hbehind, herror]
  | ok text =>
    obtain ⟨hsmall, rfl⟩ := readSource_eq_ok_iff.1 hread
    rw [parse_utf8Encode hfile (by omega)] at ha
    obtain ⟨ps, hfinds⟩ := finds_ofText (by omega) hsearch
    obtain rfl := packages_of_finds hcomplete hlast ha hfinds
    have hbehind := ofText_behind file hcomplete text
    have hend := getLast?_tokens_ofText file hcomplete hlast
    have hne : (Input.ofText file front).tokens ≠ [] := by
      intro hnil
      rw [hnil] at hend
      cases hend
    have happend := hfinds.packagesFrom_append
      ⟨Input.scanned_ofText file front, ⟨_, hbehind.text⟩, hbehind.tokens⟩ (List.suffix_refl _) hne hend
    rw [← hbehind.tokens, packagesFrom_behind file hcomplete text] at happend
    rw [← size_behind, utf8Encode_behind] at hsize
    rw [utf8Encode_behind, parse_utf8Encode hfile hsize, parse_utf8Encode hfile hsmall,
      size_utf8Encode, Input.parse_result_eq, Input.parse_result_eq, happend]
    cases (Input.ofText file text).packagesFrom (Input.ofText file text).tokens <;> rfl

/-- The line of an error behind a package, its comment and a body. -/
theorem parse_append_mismatch :
    (parse "x.pks" ("-- d\ncreate package p is end p;\ncreate package body q is end q;".toUTF8 ++
        "\n".toUTF8 ++ "create package r is\nend s;".toUTF8)).result =
      .error ⟨"x.pks", 5, .packageNameMismatch "r"⟩ := by
  have herror : (parse "x.pks" "create package r is\nend s;".toUTF8).result =
      .error ⟨"x.pks", 2, .packageNameMismatch "r"⟩ := by decide +kernel
  have hfirst : (parse "x.pks"
      "-- d\ncreate package p is end p;\ncreate package body q is end q;".toUTF8).result =
        .ok ⟨"x.pks", [⟨some ⟨[⟨"-- d", 0⟩], by simp⟩, ⟨"p", ⟨20, 21⟩⟩, 5, 30, [], [], [], [], []⟩]⟩ := by
    decide +kernel
  obtain ⟨ts, hts, hlast⟩ := Option.map_eq_some_iff.1 (show (tokens?
      "-- d\ncreate package p is end p;\ncreate package body q is end q;".toUTF8).map
        (·.getLast?.map Token.kind) = some (some (.op .semicolon)) by decide +kernel)
  rw [parse_append hfirst hts hlast (by decide +kernel) (by decide +kernel), herror]
  decide +kernel

end PackageDoc
