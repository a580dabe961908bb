/-
  Packages as rows of segments.

  The text between the opening and the closing word of a package is a row of
  segments: declarations, and what is skipped as a whole, such as pragmas, the
  markers of conditional compilation and statements of no known kind.  Of a segment
  that is skipped the parser comes to the last token without a result
  (`Skippable.returns_item?`), of a declaration to its semicolon with what the
  declaration gives as the only one of a package (`Declares.returns_item?`).  The
  package has just the declarations of its segments (`parse_segments`).
-/
import Mathlib.Data.List.Chain
import PackageDoc.Proofs.Parser.Body
import PackageDoc.Proofs.Parser.Closing
import PackageDoc.Proofs.Parser.Listing
import PackageDoc.Proofs.Parser.Piece

namespace PackageDoc

open Text

/-! ## What is skipped -/

/-- Whether a statement that starts with a token of this kind is none that the
    parser knows. -/
def TokenKind.isForeign : TokenKind → Bool
  | .op .dollar | .ident | .keyword .cursor | .keyword .function | .keyword .procedure
  | .keyword .pragma | .keyword .type | .keyword .subtype | .keyword .end_ | .eof => false
  | _ => true

/-- Whether a token of this kind starts the definition of a type that is
    documented. -/
def TokenKind.definesType : TokenKind → Bool
  | .keyword .table | .keyword .varray | .keyword .record | .keyword .ref => true
  | _ => false

/-- Tokens that end with the first semicolon among them. -/
def EndsStatement (ts : List Token) : Prop :=
  ∃ inner s, ts = inner ++ [s] ∧ (∀ t ∈ inner, t.kind ≠ .op .semicolon) ∧
    s.kind = .op .semicolon

/-- Tokens that end with the first dollar sign among them behind which a token stands
    that `closes` accepts, and with that token. -/
def EndsDirective (closes : Token → Prop) (ts : List Token) : Prop :=
  ∃ inner d t, ts = inner ++ [d, t] ∧ d.kind = .op .dollar ∧ closes t ∧
    (inner ++ [d]).IsChain fun u v => ¬ (u.kind = .op .dollar ∧ closes v)

/-- The segments of a package that are no declarations. -/
inductive Skippable : List Token → Prop where
  | semicolon {s : Token} : s.kind = .op .semicolon → Skippable [s]
  | pragma {p : Token} {ts : List Token} : p.kind = .keyword .pragma → EndsStatement ts →
      Skippable (p :: ts)
  | statement {t : Token} {ts : List Token} : t.kind.isForeign = true → EndsStatement (t :: ts) →
      Skippable (t :: ts)
  /-- `type n is` with a definition that is not documented -/
  | type {t n o : Token} {ts : List Token} : t.kind = .keyword .type → n.kind = .ident →
      o.kind = .keyword .is → EndsStatement ts →
      (∀ u ∈ ts.head?, u.kind.definesType = false) → Skippable (t :: n :: o :: ts)
  /-- `$if … $then`, `$elsif … $then` -/
  | condition {d w : Token} {ts : List Token} : d.kind = .op .dollar →
      w.kind = .keyword .if_ ∨ w.kind = .keyword .elsif →
      EndsDirective (fun t => t.kind = .ident ∧ t.lexeme = "then") ts → Skippable (d :: w :: ts)
  /-- `$else`, `$end` -/
  | marker {d w : Token} : d.kind = .op .dollar → w.kind = .keyword .else_ ∨ w.kind = .keyword .end_ →
      Skippable [d, w]
  /-- `$error … $end` -/
  | error {d w : Token} {ts : List Token} : d.kind = .op .dollar → w.kind = .ident →
      w.lexeme = "error" → EndsDirective (fun t => t.kind = .keyword .end_) ts →
      Skippable (d :: w :: ts)

/-! ## Declarations -/

/-- A package whose only declaration is `piece`. -/
def loneText (piece : List Char) : List Char :=
  ("create package " ++ "x" ++ " is").toList ++
    ("\n".toList ++ (piece ++ ("\n".toList ++ ("end " ++ "x" ++ ";").toList)))

/-- As the only declaration of a package, `piece` gives `item` and nothing else, and
    the parser stops at the semicolon before the end of the package, or at the word
    `exception` right before this semicolon. -/
def DeclaresAlone (piece : List Char) (item : Item) : Prop :=
  (∃ p, (parse "x" (loneText piece).utf8Encode).result = .ok ⟨"x", [p]⟩ ∧ p.items = [item]) ∧
    ∃ stop rest, Parser.item?.Returns (.ofText "x" (loneText piece))
        ((Input.ofText "x" (loneText piece)).tokens.drop 4) (some item) rest ∧
      (stop = [.op .semicolon] ∨ stop = [.keyword .exception, .op .semicolon]) ∧
      rest.map DocToken.kind = stop ++ [.keyword .end_, .ident, .op .semicolon]

/-- The tokens of the text are those of a declaration, which alone gives `item`. -/
def Declares (text : List Char) (ts : List Token) (item : Item) : Prop :=
  ∃ t ∈ ts.head?, ∃ s ∈ ts.getLast?, s.kind = .op .semicolon ∧
    DeclaresAlone (slice text t.span.start s.span.stop) item

/-! ## Packages -/

/-- The segments between the opening and the closing word of a package; `items` are
    what its declarations give, each alone. -/
inductive Segments (text : List Char) : List Token → List Item → Prop where
  | nil : Segments text [] []
  | declaration {ts us : List Token} {item : Item} {items : List Item} : Declares text ts item →
      Segments text us items → Segments text (ts ++ us) (item :: items)
  | skipped {ts us : List Token} {items : List Item} : Skippable ts → Segments text us items →
      Segments text (ts ++ us) items

/-- `create … package name … is`, or `as`, where the name of a schema may stand before
    that of the package. -/
inductive SpecHeader (name : String) : List Token → Prop where
  | mk {c p n o : Token} {clauses schema more : List Token} : c.kind = .keyword .create →
      (∀ t ∈ clauses, t.kind ≠ .op .semicolon ∧ t.kind ≠ .keyword .package) →
      p.kind = .keyword .package →
      (schema = [] ∧ (∀ t ∈ more.head?, t.kind ≠ .op .dot) ∨
        ∃ q d, schema = [q, d] ∧ q.kind = .ident ∧ d.kind = .op .dot) →
      n.kind = .ident → n.lexeme = name →
      (∀ t ∈ more, t.kind ≠ .keyword .is ∧ t.kind ≠ .keyword .as) →
      o.kind = .keyword .is ∨ o.kind = .keyword .as →
      SpecHeader name (c :: (clauses ++ p :: (schema ++ n :: (more ++ [o]))))

/-! ## Skipping -/

theorem DocToken.isName_iff (d : DocToken) (word : String) :
    d.isName word = true ↔ d.kind = .ident ∧ d.lexeme = word := by
  simp only [DocToken.isName, Bool.and_eq_true, decide_eq_true_eq, beq_iff_eq]

/-- The marker that ends a directive is found. -/
theorem splitDirective_eq {closes : DocToken → Bool} {inner after : List DocToken} {d t : DocToken}
    (hd : d.kind = .op .dollar) (ht : closes t = true)
    (hinner : (inner ++ [d]).IsChain fun u v => ¬ (u.kind = .op .dollar ∧ closes v = true)) :
    splitDirective closes (inner ++ d :: t :: after) = (inner ++ [d], t :: after) := by
  induction inner with
  | nil => simp [splitDirective, hd, ht]
  | cons u inner ih =>
    obtain ⟨v, more, hmore⟩ := List.exists_cons_of_ne_nil (l := inner ++ [d]) (by simp)
    rw [List.cons_append, hmore, List.isChain_cons_cons, ← hmore] at hinner
    obtain ⟨hu, hinner⟩ := hinner
    have hhead : (inner ++ d :: t :: after).head? = (inner ++ [d]).head? := by
      cases inner <;> rfl
    have hfirst : ¬ ((decide (u.kind = .op .dollar) &&
        ((inner ++ d :: t :: after).head?.map closes).getD false) = true) := by
      rw [hhead, hmore]
      simpa using hu
    rw [List.cons_append, splitDirective, if_neg hfirst, ih hinner]
    rfl

/-- Tokens of the parser that end with a semicolon. -/
theorem EndsStatement.split {ds : List DocToken} (h : EndsStatement (plainTokens ds)) :
    ∃ inner s, ds = inner ++ [s] ∧ (∀ d ∈ inner, d.kind ≠ .op .semicolon) ∧
      s.kind = .op .semicolon := by
  obtain ⟨inner, s, hds, hinner, hs⟩ := h
  obtain ⟨inner, ss, rfl, rfl, hss⟩ := plainTokens_eq_append hds
  obtain ⟨s, none, rfl, rfl, hnone⟩ := plainTokens_eq_cons hss
  obtain rfl : none = [] := by simpa [plainTokens] using hnone
  exact ⟨inner, s, rfl, fun d hd => hinner d.token (List.mem_map_of_mem hd), hs⟩

/-- Tokens of the parser that end with a marker. -/
theorem EndsDirective.split {closes' : Token → Prop} (closes : DocToken → Bool)
    (hcloses : ∀ d, closes d = true ↔ closes' d.token) {ds : List DocToken}
    (h : EndsDirective closes' (plainTokens ds)) :
    ∃ inner d t, ds = inner ++ [d, t] ∧ d.kind = .op .dollar ∧ closes t = true ∧
      (inner ++ [d]).IsChain fun u v => ¬ (u.kind = .op .dollar ∧ closes v = true) := by
  obtain ⟨inner, d, t, hds, hd, ht, hinner⟩ := h
  obtain ⟨inner, dts, rfl, rfl, hdts⟩ := plainTokens_eq_append hds
  obtain ⟨d, ts, rfl, rfl, hts⟩ := plainTokens_eq_cons hdts
  obtain ⟨t, none, rfl, rfl, hnone⟩ := plainTokens_eq_cons hts
  obtain rfl : none = [] := by simpa [plainTokens] using hnone
  refine ⟨inner, d, t, rfl, hd, (hcloses t).2 ht, ?_⟩
  have hmap : plainTokens inner ++ [d.token] = (inner ++ [d]).map DocToken.token := by
    simp [plainTokens]
  rw [hmap, List.isChain_map] at hinner
  simp only [hcloses]
  exact hinner

namespace Parser

variable {i : Input} {ds after : List DocToken}

/-- A directive of which nothing is skipped but its own word. -/
theorem returns_directive_word (hfault : i.fault? = none) {d w : DocToken} (after : List DocToken)
    (hw : w.kind = .keyword .else_ ∨ w.kind = .keyword .end_) :
    Returns directive i (d :: w :: after) () (w :: after) := by
  refine (Returns.advance hfault d _).bind ((Returns.isAt _ w _).bind ?_)
  refine .else_ ?_ ((Returns.current w _).bind (.else_ ?_ (.else_ ?_ (.pure _ _))))
  · rcases hw with hw | hw <;> simp [hw]
  · rcases hw with hw | hw <;> simp [hw]
  · rcases hw with hw | hw <;> simp [DocToken.isName, hw]

/-- A directive with a text, which ends with the first marker that closes it. -/
theorem returns_directive_text (hfault : i.fault? = none) {d w d' t : DocToken}
    {inner : List DocToken} {closes : DocToken → Bool} (after : List DocToken)
    (hw : (w.kind = .keyword .if_ ∨ w.kind = .keyword .elsif) ∧ closes = (·.isName "then") ∨
      w.isName "error" = true ∧ closes = fun u => decide (u.kind = .keyword .end_))
    (hd' : d'.kind = .op .dollar) (ht : closes t = true)
    (hinner : (inner ++ [d']).IsChain fun u v => ¬ (u.kind = .op .dollar ∧ closes v = true)) :
    Returns directive i (d :: w :: (inner ++ d' :: t :: after)) () (t :: after) := by
  have hdollar : w.kind ≠ .op .dollar := by
    rcases hw with ⟨hw | hw, -⟩ | ⟨hw, -⟩
    · simp [hw]
    · simp [hw]
    · simp [((w.isName_iff "error").1 hw).1]
  have hsplit : splitDirective closes (w :: inner ++ d' :: t :: after) =
      (w :: inner ++ [d'], t :: after) :=
    splitDirective_eq hd' ht (hinner.cons fun _ _ h => hdollar h.1)
  have hskip : Returns (skipDirective closes) i (w :: inner ++ d' :: t :: after) () (t :: after) := by
    refine returns_passTo_bind.2 ⟨.of_fault_none hfault _ _, ?_⟩
    rw [hsplit]
    exact .pure _ _
  refine (Returns.advance hfault d _).bind ((Returns.isAt _ w _).bind ?_)
  refine .else_ (by simpa using hdollar) ((Returns.current w _).bind ?_)
  rcases hw with ⟨hw, rfl⟩ | ⟨hw, rfl⟩
  · exact .then_ (by simpa using hw) hskip
  · exact .else_ (by simp [((w.isName_iff "error").1 hw).1]) (.then_ hw hskip)

theorem returns_item?_directive {d : DocToken} {ts rest : List DocToken}
    (hd : d.kind = .op .dollar) (h : Returns directive i (d :: ts) () rest) :
    Returns item? i (d :: ts) none rest := by
  refine (Returns.current d _).bind ?_
  rw [hd]
  exact h.bind (.pure _ _)

/-- A statement that is none of those known is skipped up to its semicolon. -/
theorem returns_item?_foreign (hfault : i.fault? = none) {inner : List DocToken} {s : DocToken}
    (after : List DocToken) (hforeign : (i.current (inner ++ s :: after)).kind.isForeign = true)
    (hinner : ∀ d ∈ inner, d.kind ≠ .op .semicolon) (hs : s.kind = .op .semicolon) :
    Returns item? i (inner ++ s :: after) none (s :: after) := by
  have hskip := skipTo_kind after hfault hinner hs
  refine returns_current_bind.2 ?_
  split
  case h_9 hkind =>
    -- a semicolon at the start is all of the statement
    cases inner with
    | nil => exact .pure _ _
    | cons d inner => exact absurd hkind (hinner d (by simp))
  case h_11 => exact returns_log_bind.2 (hskip.bind (.pure _ _))
  all_goals
    rename_i hkind
    rw [hkind] at hforeign
    cases hforeign

/-- A type of no kind that is documented is skipped up to its semicolon. -/
theorem returns_item?_type (hfault : i.fault? = none) {t n o s : DocToken} {inner : List DocToken}
    (after : List DocToken) (ht : t.kind = .keyword .type) (hn : n.kind = .ident)
    (ho : o.kind = .keyword .is)
    (hother : (i.current (inner ++ s :: after)).kind.definesType = false)
    (hinner : ∀ d ∈ inner, d.kind ≠ .op .semicolon) (hs : s.kind = .op .semicolon) :
    Returns item? i (t :: n :: o :: (inner ++ s :: after)) none (s :: after) := by
  have hskip := skipTo_kind after hfault hinner hs
  have hbody : Returns (typeBody? ⟨n.lexeme, n.span⟩) i (inner ++ s :: after) none (s :: after) := by
    refine returns_current_bind.2 ?_
    split
    case h_5 => exact returns_log_bind.2 (hskip.bind (.pure _ _))
    all_goals
      rename_i hkind
      rw [hkind] at hother
      cases hother
  refine (Returns.current t _).bind ?_
  rw [ht]
  have hdecl : Returns typeDecl? i (t :: n :: o :: (inner ++ s :: after)) none (s :: after) := by
    refine (Returns.current t _).bind ((Returns.nextName hfault hn t _).bind ?_)
    refine (Returns.advance hfault n _).bind ((Returns.require ho _).bind ?_)
    exact (Returns.advance hfault o _).bind (hbody.bind (.pure _ _))
  exact hdecl.bind (.pure _ _)

/-- **A segment that is no declaration is skipped**: the parser comes to its last
    token. -/
theorem returns_item?_skippable (hfault : i.fault? = none) {ts : List Token} (h : Skippable ts)
    (hds : plainTokens ds = ts) :
    ∃ inner last, ds = inner ++ [last] ∧ ∀ after,
      Returns item? i (inner ++ last :: after) none (last :: after) ∧
      (i.current (inner ++ last :: after)).kind ≠ .keyword .end_ := by
  cases h with
  | semicolon hs =>
    obtain ⟨s, none, rfl, rfl, hnone⟩ := plainTokens_eq_cons hds
    obtain rfl : none = [] := by simpa [plainTokens] using hnone
    have hs : s.kind = .op .semicolon := hs
    refine ⟨[], s, rfl, fun after => ⟨(Returns.current s _).bind ?_, by simp [Input.current, hs]⟩⟩
    rw [hs]
    exact .pure _ _
  | pragma hp hts =>
    obtain ⟨p, ds, rfl, rfl, rfl⟩ := plainTokens_eq_cons hds
    obtain ⟨inner, s, rfl, hinner, hs⟩ := hts.split
    have hp : p.kind = .keyword .pragma := hp
    have hplain : ∀ d ∈ p :: inner, d.kind ≠ .op .semicolon := by simpa [hp] using hinner
    refine ⟨p :: inner, s, rfl, fun after =>
      ⟨(Returns.current p _).bind ?_, by simp [Input.current, hp]⟩⟩
    rw [hp]
    exact (skipTo_kind after hfault hplain hs).bind (.pure _ _)
  | statement ht hts =>
    obtain ⟨t, ds, rfl, rfl, rfl⟩ := plainTokens_eq_cons hds
    have hts : EndsStatement (plainTokens (t :: ds)) := hts
    obtain ⟨inner, s, hsplit, hinner, hs⟩ := hts.split
    refine ⟨inner, s, hsplit, fun after => ?_⟩
    have hfirst : i.current (inner ++ s :: after) = t := by
      cases inner <;> exact (List.cons.inj hsplit).1.symm
    refine ⟨returns_item?_foreign hfault after (by rw [hfirst]; exact ht) hinner hs, ?_⟩
    rw [hfirst]
    intro hend
    rw [show t.token.kind = _ from hend] at ht
    cases ht
  | type ht hn ho hts hother =>
    obtain ⟨t, ds, rfl, rfl, hds₁⟩ := plainTokens_eq_cons hds
    obtain ⟨n, ds, rfl, rfl, hds₂⟩ := plainTokens_eq_cons hds₁
    obtain ⟨o, ds, rfl, rfl, rfl⟩ := plainTokens_eq_cons hds₂
    obtain ⟨inner, s, rfl, hinner, hs⟩ := hts.split
    have ht : t.kind = .keyword .type := ht
    refine ⟨t :: n :: o :: inner, s, rfl, fun after => ⟨?_, by simp [Input.current, ht]⟩⟩
    refine returns_item?_type hfault after ht hn ho (hother _ ?_) hinner hs
    cases inner <;> rfl
  | condition hd hw hts =>
    obtain ⟨d, ds, rfl, rfl, hds'⟩ := plainTokens_eq_cons hds
    obtain ⟨w, ds, rfl, rfl, rfl⟩ := plainTokens_eq_cons hds'
    obtain ⟨inner, d', t, rfl, hd', ht, hinner⟩ :=
      hts.split (·.isName "then") fun d => d.isName_iff "then"
    have hd : d.kind = .op .dollar := hd
    refine ⟨d :: w :: (inner ++ [d']), t, by simp, fun after => ⟨?_, by simp [Input.current, hd]⟩⟩
    have hdirective := returns_directive_text hfault (d := d) after (.inl ⟨hw, rfl⟩) hd' ht hinner
    simpa using returns_item?_directive hd hdirective
  | marker hd hw =>
    obtain ⟨d, ds, rfl, rfl, hds'⟩ := plainTokens_eq_cons hds
    obtain ⟨w, none, rfl, rfl, hnone⟩ := plainTokens_eq_cons hds'
    obtain rfl : none = [] := by simpa [plainTokens] using hnone
    have hd : d.kind = .op .dollar := hd
    refine ⟨[d], w, rfl, fun after => ⟨?_, by simp [Input.current, hd]⟩⟩
    exact returns_item?_directive hd (returns_directive_word hfault after hw)
  | error hd hw herror hts =>
    obtain ⟨d, ds, rfl, rfl, hds'⟩ := plainTokens_eq_cons hds
    obtain ⟨w, ds, rfl, rfl, rfl⟩ := plainTokens_eq_cons hds'
    obtain ⟨inner, d', t, rfl, hd', ht, hinner⟩ :=
      hts.split (fun u => decide (u.kind = .keyword .end_)) fun _ => decide_eq_true_iff
    have hd : d.kind = .op .dollar := hd
    have hname : w.isName "error" = true := (w.isName_iff "error").2 ⟨hw, herror⟩
    refine ⟨d :: w :: (inner ++ [d']), t, by simp, fun after => ⟨?_, by simp [Input.current, hd]⟩⟩
    have hdirective := returns_directive_text hfault (d := d) after (.inr ⟨hname, rfl⟩) hd' ht hinner
    simpa using returns_item?_directive hd hdirective

end Parser

/-! ## Declarations in their places -/

/-- The tokens of a package with a single declaration. -/
theorem holds_loneText (file : String) {piece : List Char} {us : List Token} {t : Token}
    (hscans : Scans 0 piece (us ++ [t]) []) (ht : t.kind = .op .semicolon) :
    ∃ front ds closing, (Input.ofText file (loneText piece)).tokens = front ++ (ds ++ closing) ∧
      front.length = 4 ∧ closing.length = 3 ∧ (Input.ofText file (loneText piece)).Holds piece ds := by
  have hname : isName "x" = true := isName_of_plain rfl (by decide) (by decide) (by decide)
  have hspacing : Spacing "\n".toList := by simp [Spacing, isSpacing]
  have hnewline : ∀ more : List Char, ∀ c ∈ ("\n".toList ++ more).head?, isSeparator c = true := by
    simp [isSeparator, isSpacing]
  have hspells := (spells_header hname).append (((spells_statement hscans ht).append
    ((spells_end hname).indent hspacing) (hnewline _)).indent hspacing) (hnewline _)
  have hi := Input.scanned_ofText file (loneText piece)
  have hat := hi.at_start (hspells.fault? file)
  -- the header
  obtain ⟨front, ds, htokens, hfront, hat⟩ :=
    Input.At.take hi hat (spells_header hname) (hnewline _) (by simp)
  -- the declaration
  obtain ⟨before, ds, closing, htext, rfl, hraw, hat⟩ :=
    (hat.skip hspacing).split (P := fun o ts => ts = (us ++ [t]).map (·.shift o)) hi
      (by
        rintro o ts rfl v hv
        obtain rfl : v = t.shift o := by simpa [eq_comm] using hv
        simp [ht])
      fun o => ⟨_, [], by simp [Spacing], hscans.statement ht o (hnewline _), rfl⟩
  -- the end
  have hat := hat.skip hspacing
  rw [← List.append_nil ("end " ++ "x" ++ ";").toList] at hat
  obtain ⟨closing, behind, rfl, hclosing, hat⟩ := hat.take hi (spells_end hname) (by simp) (by simp)
  obtain rfl := hat.eq_nil
  rw [List.append_nil] at htokens
  refine ⟨front, ds, closing, htokens, hfront.length_eq, hclosing.length_eq, before, _, us ++ [t],
    htext, hscans, ?_⟩
  have hmem : ∀ d ∈ ds, d ∈ (Input.ofText file (loneText piece)).tokens := fun d hd => by
    simp [htokens, hd]
  rw [← Input.Scanned.filter_raw ds fun d hd => ⟨hi.plain d (hmem d hd), hi.comments d (hmem d hd)⟩,
    hraw, List.filter_map]
  rfl

/-- The tokens of a statement stand in an input as those of its text. -/
theorem Input.Scanned.holds_statement {i : Input} (hi : i.Scanned) {before after ds : List DocToken}
    {t s : DocToken} (hsplit : i.tokens = before ++ (t :: ds) ++ after)
    (hs : (t :: ds).getLast? = some s) :
    i.Holds (slice i.text t.span.start s.span.stop) (t :: ds) ∧
      ∃ us u, Scans 0 (slice i.text t.span.start s.span.stop) (us ++ [u]) [] ∧ u.kind = s.kind := by
  obtain ⟨front, piece, back, htext, hstart, hstop, hscans⟩ := hi.piece_scans hsplit hs
  rw [← Nat.zero_add (byteLength front)] at hscans
  obtain ⟨us, hus, hscans⟩ := hscans.unshift
  have hslice : slice i.text t.span.start s.span.stop = piece := by
    rw [hstart, hstop, htext, slice_append]
  have hmem : ∀ d ∈ t :: ds, d ∈ i.tokens := fun d hd => by
    rw [hsplit]
    exact List.mem_append_left _ (List.mem_append_right _ hd)
  have hplain := hi.filter_piece hmem
  rw [hus, filter_shift] at hplain
  refine ⟨⟨front, back, us, by rwa [hslice], by rwa [hslice], hplain.symm⟩, ?_⟩
  have hlast := getLast?_raw (t := t) ds
  rw [hus, hs, List.getLast?_map, Option.map_some, Option.map_eq_some_iff] at hlast
  obtain ⟨u, hu, hshift⟩ := hlast
  obtain ⟨us, rfl⟩ := List.getLast?_eq_some_iff.1 hu
  refine ⟨us, u, by rwa [hslice], ?_⟩
  rw [DocToken.kind, ← hshift, Token.kind_shift]

namespace Parser

variable {i : Input} {ds after : List DocToken}

/-- **A declaration gives in its place what it gives alone.**  The parser stops at its
    semicolon, or at the token before it. -/
theorem returns_item?_declares (hi : i.Scanned) {ts : List Token} {item : Item}
    (h : Declares i.text ts item) (hds : plainTokens ds = ts) (hsuffix : ds ++ after <:+ i.tokens) :
    ∃ item' left s, Returns item? i (ds ++ after) (some item') (left ++ s :: after) ∧
      item'.recast .undocumented = item.recast .undocumented ∧ (left = [] ∨ ∃ d, left = [d]) ∧
      s.kind = .op .semicolon := by
  obtain ⟨t, ht, s, hs, hsemicolon, -, stop, rest, hreturns, hstop, hkinds⟩ := h
  subst hds
  obtain ⟨t, ds, rfl, rfl, -⟩ := plainTokens_eq_cons (List.head?_eq_some_iff.1 ht).choose_spec
  obtain ⟨d, hd, rfl⟩ := Option.map_eq_some_iff.1 ((List.getLast?_map ..).symm.trans hs)
  obtain ⟨before, hbefore⟩ := hsuffix
  have hsplit : i.tokens = before ++ (t :: ds) ++ after := by simp [← hbefore]
  obtain ⟨hholds, us, u, hscans, hu⟩ := hi.holds_statement hsplit hd
  obtain ⟨front, es, closing', htokens, hfront, hlength, hlone⟩ :=
    holds_loneText "x" hscans (hu.trans hsemicolon)
  rw [← DocToken.span, ← DocToken.span, htokens, List.drop_left' hfront] at hreturns
  -- what the parser leaves ends with the end of the package
  obtain ⟨left, closing, rfl, rfl, hclosing⟩ := List.map_eq_append_iff.1 hkinds
  obtain rfl : closing = closing' := by
    have hclosing : closing.length = closing'.length := by
      rw [hlength, ← List.length_map DocToken.kind, hclosing]
      rfl
    have hleft : closing <:+ es ++ closing' := (List.suffix_append left closing).trans hreturns.suffix
    exact (List.suffix_of_suffix_length_le hleft (List.suffix_append es closing')
      hclosing.le).eq_of_length hclosing
  have hne : left ≠ [] := by
    rintro rfl
    rcases hstop with hstop | hstop <;> cases hstop
  obtain ⟨item', left', hitem', hsame, hleft'⟩ := item_of_piece hlone hholds hne hreturns
  rw [← hleft'] at hstop
  rcases hstop with hstop | hstop
  · obtain ⟨s, none, rfl, hs, hnone⟩ := List.map_eq_cons_iff.1 hstop
    obtain rfl : none = [] := List.map_eq_nil_iff.1 hnone
    exact ⟨item', [], s, hitem', hsame, .inl rfl, hs⟩
  · obtain ⟨w, ss, rfl, -, hss⟩ := List.map_eq_cons_iff.1 hstop
    obtain ⟨s, none, rfl, hs, hnone⟩ := List.map_eq_cons_iff.1 hss
    obtain rfl : none = [] := List.map_eq_nil_iff.1 hnone
    exact ⟨item', [w], s, hitem', hsame, .inr ⟨w, rfl⟩, hs⟩

/-! ## Rows of segments -/

/-- What the statements of a package come to from behind a declaration, they come to
    from before it. -/
theorem Rounds.declaration (hfault : i.fault? = none) {item : Item} {left : List DocToken}
    {s : DocToken} (hitem : Returns item? i (ds ++ after) (some item) (left ++ s :: after))
    (hleft : left = [] ∨ ∃ d, left = [d]) (hs : s.kind = .op .semicolon) (found : Found) :
    ∃ last, ∀ t found' rest, Rounds i ⟨item :: found.items, last⟩ (s :: after) found' rest →
      Rounds i found (t :: (ds ++ after)) found' rest := by
  have hreaches : ∀ passed rest, Reaches i passed rest := .of_fault_none hfault
  rcases hleft with rfl | ⟨d, rfl⟩
  · exact ⟨_, fun _ _ _ hrounds => .step (hreaches _ _) (kind_ne_end hitem) hitem hrounds⟩
  · -- the semicolon is a statement of its own
    have hnone : Returns item? i (s :: after) none (s :: after) := by
      refine (Returns.current s _).bind ?_
      rw [hs]
      exact .pure _ _
    refine ⟨s.span.start, fun _ _ _ hrounds => .step (hreaches _ _) (kind_ne_end hitem) hitem ?_⟩
    exact .step (hreaches _ _) (by simp [Input.current, hs]) hnone hrounds

/-- **The statements of a package are its segments.** -/
theorem rounds_of_segments (hi : i.Scanned) (hfault : i.fault? = none) {ts : List Token}
    {items : List Item} (h : Segments i.text ts items) (hds : plainTokens ds = ts)
    (hsuffix : ds ++ after <:+ i.tokens) (found : Found) (t : DocToken) :
    ∃ found' s, Rounds i found (t :: (ds ++ after)) found' (s :: after) ∧
      found'.items.map (·.recast .undocumented) =
        (items.reverse ++ found.items).map (·.recast .undocumented) := by
  induction h generalizing ds found t with
  | nil =>
    obtain rfl : ds = [] := by simpa [plainTokens] using hds
    exact ⟨found, t, .refl _ _, rfl⟩
  | @declaration ts us item items hdeclares _ ih =>
    obtain ⟨ds₁, ds₂, rfl, hds₁, hds₂⟩ := plainTokens_eq_append hds
    rw [List.append_assoc] at hsuffix ⊢
    obtain ⟨item', left, s, hitem, hsame, hleft, hs⟩ :=
      returns_item?_declares hi hdeclares hds₁ hsuffix
    obtain ⟨last, hround⟩ := Rounds.declaration hfault hitem hleft hs found
    obtain ⟨found', s', hrounds, hfound'⟩ := ih hds₂ ((List.suffix_append ds₁ _).trans hsuffix)
      ⟨item' :: found.items, last⟩ s
    refine ⟨found', s', hround t found' _ hrounds, ?_⟩
    rw [hfound']
    simp [hsame]
  | @skipped ts us items hskippable _ ih =>
    obtain ⟨ds₁, ds₂, rfl, hds₁, hds₂⟩ := plainTokens_eq_append hds
    rw [List.append_assoc] at hsuffix ⊢
    obtain ⟨inner, last, rfl, hskip⟩ := returns_item?_skippable hfault hskippable hds₁
    obtain ⟨hitem, hend⟩ := hskip (ds₂ ++ after)
    obtain ⟨found', s', hrounds, hfound'⟩ := ih hds₂ ((List.suffix_append _ _).trans hsuffix)
      ⟨found.items, (i.current (inner ++ last :: (ds₂ ++ after))).span.start⟩ last
    refine ⟨found', s', ?_, hfound'⟩
    rw [List.append_assoc]
    exact .step (.of_fault_none hfault _ _) hend hitem hrounds

/-! ## The package -/

/-- The name of a package, with or without that of its schema, and the clauses behind
    it. -/
theorem returns_packageName (hfault : i.fault? = none) {schema more : List DocToken}
    {n o : DocToken} (rest : List DocToken)
    (hschema : schema = [] ∧ (∀ d ∈ more.head?, d.kind ≠ .op .dot) ∨
      ∃ q d, schema = [q, d] ∧ q.kind = .ident ∧ d.kind = .op .dot)
    (hn : n.kind = .ident) (hmore : ∀ d ∈ more, d.kind ≠ .keyword .is ∧ d.kind ≠ .keyword .as)
    (ho : o.kind = .keyword .is ∨ o.kind = .keyword .as) :
    Returns packageName i (schema ++ n :: (more ++ o :: rest)) ⟨n.lexeme, n.span⟩ (o :: rest) := by
  have hopens : Returns (takeTo fun t => t.kind = .keyword .is || t.kind = .keyword .as) i
      (more ++ o :: rest) more (o :: rest) :=
    takeTo_stop rest hfault (by simpa using hmore) (by simpa using ho)
  rcases hschema with ⟨rfl, hdot⟩ | ⟨q, d, rfl, hq, hd⟩
  · refine (Returns.name hn _).bind ((Returns.advance hfault n _).bind ?_)
    refine returns_isAt_bind.2 (.else_ ?_ (hopens.bind (.pure _ _)))
    cases more with
    | nil => rcases ho with ho | ho <;> simp [Input.current, ho]
    | cons d more => simpa [Input.current] using hdot d (by simp)
  · refine (Returns.name hq _).bind ((Returns.advance hfault q _).bind ((Returns.isAt _ d _).bind ?_))
    refine .then_ (by simpa using hd) ((Returns.nextName hfault hn d _).bind ?_)
    exact (Returns.advance hfault n _).bind (hopens.bind (.pure _ _))

/-- The end of a package, behind which no other name stands. -/
theorem returns_packageEnd_of_name (hi : i.Scanned) (hfault : i.fault? = none) {name : Ident}
    {e : DocToken} {behind : List DocToken}
    (hbehind : ∀ d ∈ behind.head?, d.kind = .ident → d.lexeme = name.name) :
    ∃ last, Returns (packageEnd name) i (e :: behind) last behind := by
  by_cases hkind : (i.current behind).kind = .ident
  · refine ⟨(i.current behind).span.stop, returns_packageEnd.2 ⟨.of_fault_none hfault _ _, rfl, ?_⟩⟩
    rw [if_pos hkind]
    obtain ⟨d, behind, rfl, -⟩ := cons_of_current hi.eof_kind hkind (by simp)
    exact ⟨hbehind d (by simp) hkind, rfl⟩
  · refine ⟨e.span.stop, returns_packageEnd.2 ⟨.of_fault_none hfault _ _, rfl, ?_⟩⟩
    rw [if_neg hkind]

/-- **A package has the declarations of its segments.** -/
theorem returns_package?_segments (create : DocToken) (hi : i.Scanned) (hfault : i.fault? = none)
    {ts : List Token} {items : List Item} (hbody : Segments i.text ts items)
    (hds : plainTokens ds = ts) {o e : DocToken} {us behind : List DocToken} {name : Ident}
    (hkind : (i.current (us ++ o :: (ds ++ e :: behind))).kind ≠ .keyword .body)
    (hname : Returns packageName i (us ++ o :: (ds ++ e :: behind)) name (o :: (ds ++ e :: behind)))
    (hsuffix : ds ++ e :: behind <:+ i.tokens) (he : e.kind = .keyword .end_)
    (hbehind : ∀ d ∈ behind.head?, d.kind = .ident → d.lexeme = name.name) :
    ∃ p, Returns (package? create) i (us ++ o :: (ds ++ e :: behind)) (some p) behind ∧
      p.recast .undocumented =
        (Package.ofItems none ⟨name.name, .none⟩ 0 0 items).recast .undocumented := by
  obtain ⟨found, s, hrounds, hfound⟩ :=
    rounds_of_segments hi hfault hbody hds hsuffix ⟨[], o.span.start⟩ o
  obtain ⟨last, hlast⟩ := returns_packageEnd_of_name hi hfault (e := e) hbehind
  have hloop : Returns (iterate (itemStep name) id ⟨[], o.span.start⟩) i (o :: (ds ++ e :: behind))
      ⟨found.items, last⟩ behind :=
    returns_itemLoop.2 (.inr ⟨found.last, s, e :: behind, hrounds, .of_fault_none hfault _ _, he, hlast⟩)
  refine ⟨_, (returns_package?_named hkind).2 ⟨name, _, _, hname, hloop, rfl⟩, ?_⟩
  have hitems : found.items.reverse.map (·.recast .undocumented) =
      items.map (·.recast .undocumented) := by
    rw [List.map_reverse, hfound]
    simp
  rw [Package.recast_ofItems, Package.recast_ofItems, hitems]
  rfl

theorem returns_packages_none (hfault : i.fault? = none) {ts : List DocToken}
    (h : ∀ d ∈ ts, d.kind ≠ .keyword .package) : Returns packages i ts [] [] := by
  refine returns_packages.2 ⟨none, [], returns_nextCreate?.2 ?_, rfl, rfl⟩
  exact ⟨by rw [splitPackage_of_no_package h], .of_fault_none hfault _ _, rfl⟩

/-! ## The search for packages -/

/-- What the search for packages comes to: `found` are the packages so far, and
    `create?` is the word `create` of the statement that goes on with `ts`. -/
inductive Searches (i : Input) : List Package → Option DocToken → List DocToken → Prop where
  | start : Searches i [] none i.tokens
  /-- past a token that opens no package -/
  | pass {found : List Package} {create? : Option DocToken} {t : DocToken} {ts : List DocToken} :
      Searches i found create? (t :: ts) → ¬ (t.kind = .keyword .package ∧ create?.isSome = true) →
      Searches i found (pendingCreate create? t) ts
  /-- past a package, or a body -/
  | package {found : List Package} {create k : DocToken} {us rest : List DocToken}
      {p? : Option Package} : Searches i found (some create) (k :: us) →
      k.kind = .keyword .package → Returns (package? create) i us p? rest →
      Searches i (found ++ p?.toList) none rest

namespace Searches

variable {found : List Package} {create? : Option DocToken}

theorem suffix (h : Searches i found create? ds) : ds <:+ i.tokens := by
  induction h with
  | start => exact List.suffix_refl _
  | pass _ _ ih => exact (List.suffix_cons _ _).trans ih
  | package _ _ hpackage ih => exact hpackage.suffix.trans ((List.suffix_cons _ _).trans ih)

/-- The search passes over tokens among which the word `package` is missing. -/
theorem pass_all {before : List DocToken} (h : Searches i found create? (before ++ ds))
    (hbefore : ∀ d ∈ before, d.kind ≠ .keyword .package) :
    Searches i found (before.foldl pendingCreate create?) ds := by
  induction before generalizing create? with
  | nil => exact h
  | cons d before ih =>
    exact ih (.pass h fun hd => hbefore d (by simp) hd.1) fun d hd => hbefore d (by simp [hd])

/-- Tokens that open no package, and after which none is at hand, are of no account. -/
theorem outcome_packages_passed (hfault : i.fault? = none) {passed : List DocToken}
    (hsplit : (splitPackage none passed).2 = []) (hnone : passed.foldl pendingCreate none = none) :
    packages.outcome i (passed ++ ds) = packages.outcome i ds := by
  have hnext (ts : List DocToken) : nextCreate?.outcome i ts = .ok
      (if (splitPackage none ts).2.isEmpty then none
        else (splitPackage none ts).1.foldl pendingCreate none, (splitPackage none ts).2) :=
    returns_nextCreate?.2 ⟨rfl, .of_fault_none hfault _ _, rfl⟩
  rw [packages, outcome_bind, outcome_bind, hnext, hnext, splitPackage_append_of_nil hsplit, hnone,
    List.foldl_append, hnone]

/-- **The packages of a file are those found so far and those ahead.**  What was passed
    since the last of them stands before what is ahead, and says whether a statement is
    at hand that may create one. -/
theorem outcome_packages (hfault : i.fault? = none) (h : Searches i found create? ds) :
    ∃ passed, (splitPackage none passed).2 = [] ∧ passed.foldl pendingCreate none = create? ∧
      packages.outcome i i.tokens =
        (packages.outcome i (passed ++ ds)).map fun y => (found ++ y.1, y.2) := by
  induction h with
  | start =>
    refine ⟨[], rfl, rfl, ?_⟩
    cases h : packages.outcome i i.tokens <;> simp [h, Except.map]
  | @pass found create? t ts _ hpackage ih =>
    obtain ⟨passed, hsplit, rfl, hpackages⟩ := ih
    refine ⟨passed ++ [t], ?_, by simp, by simpa using hpackages⟩
    rw [splitPackage_append_of_nil hsplit, splitPackage, if_neg (by simpa using hpackage)]
    rfl
  | @package found create k us rest p? _ hk hreturns ih =>
    obtain ⟨passed, hsplit, hcreate, hpackages⟩ := ih
    have hcreates : Creates i (passed ++ k :: us) create us := by
      refine ⟨k, returns_nextCreate?.2 ?_, .of_fault_none hfault _ _⟩
      rw [splitPackage_append_of_nil hsplit, hcreate]
      simp [splitPackage, hk, hcreate, Reaches.of_fault_none hfault]
    refine ⟨[], rfl, rfl, ?_⟩
    rw [hpackages, hcreates.outcome_packages, hreturns]
    simp only [Except.bind, List.nil_append]
    cases packages.outcome i rest <;> simp [Except.map]

/-- A package at the front of the input is the first one found. -/
theorem first {create k : DocToken} {us rest : List DocToken} {p : Package}
    (h : i.tokens = create :: k :: us) (hcreate : create.kind = .keyword .create)
    (hk : k.kind = .keyword .package) (hpackage : Returns (package? create) i us (some p) rest) :
    Searches i [p] none rest := by
  have hstart : Searches i [] none (create :: k :: us) := h ▸ .start
  have hpass := hstart.pass (by simp)
  simp only [pendingCreate, hcreate] at hpass
  exact hpass.package hk hpackage

end Searches

/-- Where the search comes to a statement that creates a package, it has the word
    `create` of it. -/
theorem Searches.header {found : List Package} {create? : Option DocToken}
    {opening : List DocToken} {k : DocToken} {us : List DocToken}
    (h : Searches i found create? (opening ++ k :: us))
    (hopening : ∀ d ∈ opening, d.kind ≠ .keyword .package)
    (hcreate : (opening.foldl pendingCreate create?).isSome = true) :
    ∃ create, Searches i found (some create) (k :: us) := by
  obtain ⟨create, hcreate⟩ := Option.isSome_iff_exists.1 hcreate
  exact ⟨create, hcreate ▸ h.pass_all hopening⟩

end Parser

/-! ## The source -/

/-- What a parser returns, and what is known of the tokens that it leaves. -/
theorem Parser.returns_of_outcome {α β : Type} {p : Parser α} {i : Input} {t : List DocToken} {a : α}
    {f : List DocToken → β} {b : β}
    (h : (p.outcome i t).toOption.map (fun x => (x.1, f x.2)) = some (a, b)) :
    ∃ rest, Returns p i t a rest ∧ f rest = b := by
  obtain ⟨x, houtcome, hx⟩ := exists_ok_of_toOption h
  obtain ⟨rfl, rfl⟩ := Prod.mk.inj hx
  exact ⟨x.2, houtcome, rfl⟩

/-- The tokens of the parser of a header. -/
theorem SpecHeader.split {name : String} {ts : List Token} (h : SpecHeader name ts)
    {ds : List DocToken} (hds : plainTokens ds = ts) :
    ∃ (opening : List DocToken) (p : DocToken) (schema : List DocToken) (n : DocToken)
      (more : List DocToken) (o : DocToken), ds = opening ++ p :: (schema ++ n :: (more ++ [o])) ∧
      (∀ d ∈ opening, d.kind ≠ .keyword .package) ∧
      (∀ create?, (opening.foldl pendingCreate create?).isSome = true) ∧
      p.kind = .keyword .package ∧
      (schema = [] ∧ (∀ d ∈ more.head?, d.kind ≠ .op .dot) ∨
        ∃ q d, schema = [q, d] ∧ q.kind = .ident ∧ d.kind = .op .dot) ∧
      n.kind = .ident ∧ n.lexeme = name ∧
      (∀ d ∈ more, d.kind ≠ .keyword .is ∧ d.kind ≠ .keyword .as) ∧
      (o.kind = .keyword .is ∨ o.kind = .keyword .as) := by
  cases h with
  | @mk c p n o clauses schema more hc hclauses hp hschema hn hname hmore ho =>
    obtain ⟨c, ds₁, rfl, rfl, h₁⟩ := plainTokens_eq_cons hds
    obtain ⟨clauses, ds₂, rfl, rfl, h₂⟩ := plainTokens_eq_append h₁
    obtain ⟨p, ds₃, rfl, rfl, h₃⟩ := plainTokens_eq_cons h₂
    obtain ⟨schema, ds₄, rfl, rfl, h₄⟩ := plainTokens_eq_append h₃
    obtain ⟨n, ds₅, rfl, rfl, h₅⟩ := plainTokens_eq_cons h₄
    obtain ⟨more, ds₆, rfl, rfl, h₆⟩ := plainTokens_eq_append h₅
    obtain ⟨o, none, rfl, rfl, hnone⟩ := plainTokens_eq_cons h₆
    obtain rfl : none = [] := by simpa [plainTokens] using hnone
    have hclauses : ∀ d ∈ clauses, d.kind ≠ .op .semicolon ∧ d.kind ≠ .keyword .package :=
      fun d hd => hclauses d.token (List.mem_map_of_mem hd)
    have hc : c.kind = .keyword .create := hc
    refine ⟨c :: clauses, p, schema, n, more, o, rfl, ?_, fun create? => ?_, hp, ?_, hn, hname,
      fun d hd => hmore d.token (List.mem_map_of_mem hd), ho⟩
    · simpa [hc] using fun d hd => (hclauses d hd).2
    · rw [List.foldl_cons, show pendingCreate create? c = some c by simp [pendingCreate, hc]]
      exact Parser.isSome_foldl_pendingCreate fun d hd => (hclauses d hd).1
    · rcases hschema with ⟨hschema, hdot⟩ | ⟨q, d, hschema, hq, hd⟩
      · refine .inl ⟨List.map_eq_nil_iff.1 hschema, fun d hd => hdot d.token ?_⟩
        rw [plainTokens, List.head?_map]
        exact Option.mem_map_of_mem _ hd
      · obtain ⟨q, ds₇, rfl, rfl, h₇⟩ := plainTokens_eq_cons hschema
        obtain ⟨d, none, rfl, rfl, hnone⟩ := plainTokens_eq_cons h₇
        obtain rfl : none = [] := by simpa [plainTokens] using hnone
        exact .inr ⟨q, d, rfl, hq, hd⟩

theorem Package.itemCount_recast (r : Recast) (p : Package) :
    (p.recast r).itemCount = p.itemCount := by
  simp [Package.itemCount, Package.recast]

theorem Input.packagesFrom_of_fault_none {i : Input} (h : i.fault? = none) (ts : List DocToken) :
    i.packagesFrom ts = (Parser.packages.outcome i ts).map Prod.fst := by
  unfold Input.packagesFrom
  rw [h]
  cases ts <;> rfl

/-- A file has the packages found so far and, behind a statement, those ahead. -/
theorem Parser.Searches.parse_result {file : String} {text : List Char} (hfile : file ≠ "")
    (hsize : text.utf8Encode.size ≤ maxOffset) (hfault : (Input.ofText file text).fault? = none)
    {found : List Package} {ds : List DocToken} (h : Searches (.ofText file text) found none ds) :
    (parse file text.utf8Encode).result =
      ((Input.ofText file text).packagesFrom ds).map fun ps => ⟨file, found ++ ps⟩ := by
  obtain ⟨passed, hsplit, hnone, hpackages⟩ := h.outcome_packages hfault
  rw [outcome_packages_passed hfault hsplit hnone] at hpackages
  rw [parse_utf8Encode hfile hsize, Input.parse_result_eq,
    Input.packagesFrom_of_fault_none hfault, Input.packagesFrom_of_fault_none hfault, hpackages]
  cases packages.outcome (.ofText file text) ds <;> rfl

/-- Where the search comes to a header with segments behind it, it finds the package and
    goes on behind the closing word. -/
theorem Parser.Searches.specification {file name : String} {text : List Char}
    {found : List Package} {create? : Option DocToken} {ds : List DocToken}
    {header body back : List Token} {e : Token} {items : List Item}
    (hfault : (Input.ofText file text).fault? = none)
    (hsearch : Searches (.ofText file text) found create? ds)
    (hsplit : plainTokens ds = header ++ (body ++ e :: back)) (hheader : SpecHeader name header)
    (hbody : Segments text body items) (he : e.kind = .keyword .end_)
    (hback : ∀ t ∈ back.head?, t.kind = .ident → t.lexeme = name) :
    ∃ p behind, p.recast .undocumented =
        (Package.ofItems none ⟨name, .none⟩ 0 0 items).recast .undocumented ∧
      plainTokens behind = back ∧ Searches (.ofText file text) (found ++ [p]) none behind := by
  have hi := Input.scanned_ofText file text
  -- the tokens of the parser
  obtain ⟨header, ds₁, rfl, hheader', h₁⟩ := plainTokens_eq_append hsplit
  obtain ⟨body, ds₂, rfl, hbody', h₂⟩ := plainTokens_eq_append h₁
  obtain ⟨e, behind, rfl, rfl, rfl⟩ := plainTokens_eq_cons h₂
  obtain ⟨opening, k, schema, n, more, o, rfl, hopening, hcreate, hk, hschema, hn, rfl, hmore, ho⟩ :=
    hheader.split hheader'
  have hsuffix : body ++ e :: behind <:+ (Input.ofText file text).tokens :=
    (List.suffix_append _ _).trans hsearch.suffix
  have hbehind : ∀ d ∈ behind.head?, d.kind = .ident → d.lexeme = n.lexeme := by
    intro d hd
    refine hback d.token ?_
    rw [plainTokens, List.head?_map]
    exact Option.mem_map_of_mem _ hd
  -- the search comes to the package
  have hstatement : opening ++ k :: (schema ++ n :: (more ++ [o])) ++ (body ++ e :: behind) =
      opening ++ k :: ((schema ++ n :: more) ++ o :: (body ++ e :: behind)) := by simp
  rw [hstatement] at hsearch
  obtain ⟨create, hsearch⟩ := hsearch.header hopening (hcreate create?)
  have hname := returns_packageName hfault (body ++ e :: behind) hschema hn hmore ho
  have hkind : ((Input.ofText file text).current
      ((schema ++ n :: more) ++ o :: (body ++ e :: behind))).kind ≠ .keyword .body := by
    rcases hschema with ⟨rfl, -⟩ | ⟨q, d, rfl, hq, -⟩
    · simp [Input.current, hn]
    · simp [Input.current, hq]
  -- and finds it
  obtain ⟨p, hpackage, hp⟩ := returns_package?_segments create hi hfault hbody hbody' hkind
    (by simpa using hname) hsuffix he hbehind
  exact ⟨p, behind, hp, rfl, hsearch.package hk hpackage⟩

/-- **What is skipped leaves no trace.**  Wherever the search for packages comes to a
    header behind which the text up to the closing word is a row of segments, the
    package is found, with what the declarations among the segments give alone, up to
    offsets and docs; the search goes on behind it. -/
theorem parse_segments {file name : String} {text : List Char} {found : List Package}
    {create? : Option DocToken} {ds : List DocToken} {header body back : List Token} {e : Token}
    {items : List Item} (hfile : file ≠ "") (htokens : (tokens? text.utf8Encode).isSome = true)
    (hsearch : Parser.Searches (.ofText file text) found create? ds)
    (hsplit : plainTokens ds = header ++ (body ++ e :: back)) (hheader : SpecHeader name header)
    (hbody : Segments text body items) (he : e.kind = .keyword .end_)
    (hback : ∀ t ∈ back.head?, t.kind = .ident → t.lexeme = name) :
    ∃ p behind, p.recast .undocumented =
        (Package.ofItems none ⟨name, .none⟩ 0 0 items).recast .undocumented ∧
      p.itemCount = items.length ∧ plainTokens behind = back ∧
      Parser.Searches (.ofText file text) (found ++ [p]) none behind ∧
      (parse file text.utf8Encode).result =
        ((Input.ofText file text).packagesFrom behind).map (fun ps => ⟨file, found ++ p :: ps⟩) ∧
      ((∀ t ∈ back, t.kind ≠ .keyword .package) →
        (parse file text.utf8Encode).result = .ok ⟨file, found ++ [p]⟩) := by
  obtain ⟨raw, hraw⟩ := Option.isSome_iff_exists.1 htokens
  obtain ⟨hsize, -, ending, hending⟩ := tokens?_utf8Encode hraw
  have hfault := Input.fault?_ofText_eq_none file hending
  obtain ⟨p, behind, hp, rfl, hnext⟩ :=
    hsearch.specification hfault hsplit hheader hbody he hback
  have hresult := hnext.parse_result hfile hsize hfault
  simp only [List.append_assoc, List.singleton_append] at hresult
  refine ⟨p, behind, hp, ?_, rfl, hnext, hresult, fun hnone => ?_⟩
  · rw [← Package.itemCount_recast .undocumented, hp, Package.itemCount_recast,
      Package.itemCount_ofItems]
  · have hrest := Parser.returns_packages_none hfault
      fun d hd => hnone d.token (List.mem_map_of_mem hd)
    rw [hresult, Input.packagesFrom_of_fault_none hfault, hrest]
    rfl

/-- Behind another package: a pragma, a condition with an inquiry, an exception, and a
    type of no documented kind. -/
def segmentedText : List Char :=
  ("create package q is end;" ++
    "create package p is pragma a;$if $$b$then e exception;$end type t is c;end p;").toList

/-- The exception, as it is declared alone. -/
def loneException : Item := .field (.ofException none ⟨"e", 20, 21⟩)

theorem declaresAlone_exception : DeclaresAlone (slice segmentedText 66 78) loneException := by
  have hpiece : slice segmentedText 66 78 = "e exception;".toList := by decide +kernel
  rw [hpiece]
  refine ⟨⟨.ofItems none ⟨"x", 15, 16⟩ 0 38 [loneException], by decide +kernel, rfl⟩,
    [.keyword .exception, .op .semicolon], ?_⟩
  obtain ⟨rest, hreturns, hkinds⟩ := Parser.returns_of_outcome (p := Parser.item?)
    (i := .ofText "x" (loneText "e exception;".toList))
    (t := (Input.ofText "x" (loneText "e exception;".toList)).tokens.drop 4)
    (a := some loneException) (f := List.map DocToken.kind)
    (b := [.keyword .exception, .op .semicolon] ++ [.keyword .end_, .ident, .op .semicolon])
    (by decide +kernel)
  exact ⟨rest, hreturns, .inr rfl, hkinds⟩

/-- The segments of the package. -/
def segmentedBody : List Token :=
  [⟨.keyword .pragma, "pragma", 44, 50⟩, ⟨.ident, "a", 51, 52⟩, ⟨.op .semicolon, ";", 52, 53⟩] ++
  ([⟨.op .dollar, "$", 53, 54⟩, ⟨.keyword .if_, "if", 54, 56⟩, ⟨.op .dollar, "$", 57, 58⟩,
    ⟨.op .dollar, "$", 58, 59⟩, ⟨.ident, "b", 59, 60⟩, ⟨.op .dollar, "$", 60, 61⟩,
    ⟨.ident, "then", 61, 65⟩] ++
  ([⟨.ident, "e", 66, 67⟩, ⟨.keyword .exception, "exception", 68, 77⟩,
    ⟨.op .semicolon, ";", 77, 78⟩] ++
  ([⟨.op .dollar, "$", 78, 79⟩, ⟨.keyword .end_, "end", 79, 82⟩] ++
  ([⟨.keyword .type, "type", 83, 87⟩, ⟨.ident, "t", 88, 89⟩, ⟨.keyword .is, "is", 90, 92⟩,
    ⟨.ident, "c", 93, 94⟩, ⟨.op .semicolon, ";", 94, 95⟩] ++ []))))

theorem segments_segmentedBody : Segments segmentedText segmentedBody [loneException] := by
  refine .skipped (.pragma rfl ⟨[_], _, rfl, by simp, rfl⟩) (.skipped ?_ (.declaration ?_
    (.skipped (.marker rfl (.inr rfl)) (.skipped ?_ .nil))))
  · exact .condition rfl (.inl rfl) ⟨[_, _, _], _, _, rfl, rfl, ⟨rfl, rfl⟩, by simp⟩
  · exact ⟨⟨.ident, "e", 66, 67⟩, rfl, ⟨.op .semicolon, ";", 77, 78⟩, rfl, rfl,
      declaresAlone_exception⟩
  · exact .type rfl rfl rfl ⟨[_], _, rfl, by simp, rfl⟩ (by simp [TokenKind.definesType])

/-- The tokens of the second package. -/
def segmentedHeader : List Token :=
  ⟨.keyword .create, "create", 24, 30⟩ :: ([] ++ ⟨.keyword .package, "package", 31, 38⟩ :: ([] ++
    ⟨.ident, "p", 39, 40⟩ :: ([] ++ [⟨.keyword .is, "is", 41, 43⟩])))

/-- The first package. -/
def emptyPackage : Package := .ofItems none ⟨"q", 15, 16⟩ 0 23 []

def segmentedInput : Input := .ofText "a.pks" segmentedText

/-- The search comes to the second package with the first one found. -/
theorem searches_segmentedText :
    segmentedInput.fault? = none ∧ ∃ ds, Parser.Searches segmentedInput [emptyPackage] none ds ∧
      plainTokens ds = ⟨.op .semicolon, ";", 23, 24⟩ :: (segmentedHeader ++
        (segmentedBody ++ ⟨.keyword .end_, "end", 95, 98⟩ ::
          [⟨.ident, "p", 99, 100⟩, ⟨.op .semicolon, ";", 100, 101⟩])) := by
  have hopening :
      segmentedInput.fault? = none ∧
      (segmentedInput.current segmentedInput.tokens).kind = .keyword .create ∧
      (segmentedInput.current segmentedInput.tokens.tail).kind = .keyword .package ∧
      segmentedInput.tokens = segmentedInput.current segmentedInput.tokens ::
        segmentedInput.current segmentedInput.tokens.tail :: segmentedInput.tokens.tail.tail ∧
      ((Parser.package? (segmentedInput.current segmentedInput.tokens)).outcome segmentedInput
        segmentedInput.tokens.tail.tail).toOption.map (fun x => (x.1, plainTokens x.2)) =
        some (some emptyPackage, ⟨.op .semicolon, ";", 23, 24⟩ :: (segmentedHeader ++
          (segmentedBody ++ ⟨.keyword .end_, "end", 95, 98⟩ ::
            [⟨.ident, "p", 99, 100⟩, ⟨.op .semicolon, ";", 100, 101⟩]))) := by
    decide +kernel
  obtain ⟨hfault, hcreate, hpackage, htokens, houtcome⟩ := hopening
  obtain ⟨ds, hreturns, hds⟩ := Parser.returns_of_outcome houtcome
  exact ⟨hfault, ds, .first htokens hcreate hpackage hreturns, hds⟩

theorem parse_segments_directives :
    ∃ p, (parse "a.pks" segmentedText.utf8Encode).result = .ok ⟨"a.pks", [emptyPackage, p]⟩ ∧
      p.itemCount = 1 ∧ p.recast .undocumented =
        (Package.ofItems none ⟨"p", .none⟩ 0 0 [loneException]).recast .undocumented := by
  have hheader : SpecHeader "p" segmentedHeader :=
    .mk rfl (by simp) rfl (.inl ⟨rfl, by simp⟩) rfl rfl (by simp) (.inl rfl)
  have hsize : segmentedText.utf8Encode.size ≤ maxOffset := by
    rw [size_utf8Encode]
    decide +kernel
  obtain ⟨hfault, ds, hsearch, hds⟩ := searches_segmentedText
  have htokens : (tokens? segmentedText.utf8Encode).isSome = true :=
    Option.isSome_of_eq_some ((Input.small_ofText "a.pks" hsize).tokens?_source hfault)
  -- past the semicolon of the first package
  obtain ⟨s, ds, rfl, hs, hds⟩ := plainTokens_eq_cons hds
  have hkind : s.kind = .op .semicolon := congrArg Token.kind hs
  have hsearch := hsearch.pass (by simp)
  obtain ⟨p, behind, hp, hcount, -, -, -, hresult⟩ :=
    parse_segments (show "a.pks" ≠ "" by decide) htokens hsearch hds hheader
      segments_segmentedBody rfl (by simp)
  exact ⟨p, hresult (by simp), hcount, hp⟩

end PackageDoc
