/-
  The bodies of packages.

  A body is skipped by counting: `begin` and `case` open a block, and `end`
  closes one unless an `if` or a `loop` follows it.  `Nested n ts` are the tokens
  of properly nested constructs, in which `n` times the `end` of a block is taken
  for that of a statement, because the word behind it starts or belongs to the
  next one, as in `while case … end loop`.  Over such tokens the count rises by
  `n` (`splitBody_nested`).

  A body is left where it ends, and so changes nothing in what follows it, if
  and only if `n` is 0 and the body has no initialization section
  (`transparent_iff`): such a section has a `begin` of its own, but shares the
  `end` of the body.
-/
import PackageDoc.Proofs.Parser.Shift

namespace PackageDoc

open Text

/-! ## Words that matter -/

/-- The words that a body is nested by. -/
inductive Mark where
  | begin | end_ | case | if_ | loop
  deriving DecidableEq, Repr

/-- What a token means for the nesting of a body. -/
def Token.mark? (t : Token) : Option Mark :=
  match t.kind with
  | .keyword .begin => some .begin
  | .keyword .end_ => some .end_
  | .keyword .if_ => some .if_
  | .ident => if t.lexeme == "case" then some .case else if t.lexeme == "loop" then some .loop else none
  | _ => none

section
variable (d : DocToken)

theorem kind_begin_iff : d.kind = .keyword .begin ↔ d.token.mark? = some .begin := by
  simp only [DocToken.kind, Token.mark?]
  grind

theorem kind_end_iff : d.kind = .keyword .end_ ↔ d.token.mark? = some .end_ := by
  simp only [DocToken.kind, Token.mark?]
  grind

theorem isName_case_iff : d.isName "case" = true ↔ d.token.mark? = some .case := by
  simp only [DocToken.isName, DocToken.kind, DocToken.lexeme, Token.mark?]
  grind

/-- The words that open a block. -/
theorem opens_iff : (decide (d.kind = .keyword .begin) || d.isName "case") = true ↔
    d.token.mark? = some .begin ∨ d.token.mark? = some .case := by
  rw [Bool.or_eq_true, decide_eq_true_iff, kind_begin_iff, isName_case_iff]

theorem closesStatement_iff :
    closesStatement d = true ↔ d.token.mark? = some .if_ ∨ d.token.mark? = some .loop := by
  simp only [closesStatement, DocToken.isName, DocToken.kind, DocToken.lexeme, Token.mark?]
  grind

end

/-! ## Steps of the count -/

section
variable {depth : Nat} {d e u : DocToken} {ds us : List DocToken}

theorem splitBody_open (h : d.token.mark? = some .begin ∨ d.token.mark? = some .case) :
    splitBody depth (d :: ds) = (d :: (splitBody (depth + 1) ds).1, (splitBody (depth + 1) ds).2) := by
  rw [splitBody.eq_def]
  simp only [(opens_iff d).2 h, if_true]

theorem splitBody_plain
    (h : d.token.mark? = none ∨ d.token.mark? = some .if_ ∨ d.token.mark? = some .loop) :
    splitBody depth (d :: ds) = (d :: (splitBody depth ds).1, (splitBody depth ds).2) := by
  have hopen : ¬ (decide (d.kind = .keyword .begin) || d.isName "case") = true := by
    rw [opens_iff]
    grind
  have hend : ¬ d.kind = .keyword .end_ := by
    rw [kind_end_iff]
    grind
  rw [splitBody.eq_def]
  dsimp only
  rw [if_neg hopen, if_neg hend]

theorem splitBody_end (he : e.token.mark? = some .end_) :
    splitBody depth (e :: u :: us) =
      if closesStatement u then (e :: u :: (splitBody depth us).1, (splitBody depth us).2)
      else if depth ≤ 1 then ([e], u :: us)
      else if u.isName "case" then
        (e :: u :: (splitBody (depth - 1) us).1, (splitBody (depth - 1) us).2)
      else (e :: (splitBody (depth - 1) (u :: us)).1, (splitBody (depth - 1) (u :: us)).2) := by
  have hopen : ¬ (decide (e.kind = .keyword .begin) || e.isName "case") = true := by
    rw [opens_iff]
    grind
  rw [splitBody.eq_def]
  dsimp only
  rw [if_neg hopen, if_pos ((kind_end_iff e).2 he)]

/-- The `end` of an `if` or a loop. -/
theorem splitBody_end_statement (he : e.token.mark? = some .end_)
    (hu : u.token.mark? = some .if_ ∨ u.token.mark? = some .loop) :
    splitBody depth (e :: u :: us) = (e :: u :: (splitBody depth us).1, (splitBody depth us).2) := by
  rw [splitBody_end he, if_pos ((closesStatement_iff u).2 hu)]

/-- The `end` of a `case` statement. -/
theorem splitBody_end_case (he : e.token.mark? = some .end_) (hu : u.token.mark? = some .case)
    (hdepth : 1 ≤ depth) :
    splitBody (depth + 1) (e :: u :: us) =
      (e :: u :: (splitBody depth us).1, (splitBody depth us).2) := by
  have hcloses : ¬ closesStatement u = true := by
    rw [closesStatement_iff]
    grind
  rw [splitBody_end he, if_neg hcloses, if_neg (by omega), if_pos ((isName_case_iff u).2 hu),
    Nat.add_sub_cancel]

/-- The `end` of a block, and of the body. -/
theorem splitBody_end_block (he : e.token.mark? = some .end_)
    (hu : ¬ (u.token.mark? = some .if_ ∨ u.token.mark? = some .loop)) :
    splitBody (depth + 1) (e :: u :: us) =
      if depth = 0 then ([e], u :: us)
      else if u.token.mark? = some .case then
        (e :: u :: (splitBody depth us).1, (splitBody depth us).2)
      else (e :: (splitBody depth (u :: us)).1, (splitBody depth (u :: us)).2) := by
  have hcloses : ¬ closesStatement u = true := by rwa [closesStatement_iff]
  rw [splitBody_end he, if_neg hcloses, Nat.add_sub_cancel]
  simp only [isName_case_iff, show depth + 1 ≤ 1 ↔ depth = 0 by omega]

end

/-! ## Nested constructs -/

/-- Whether the first of some tokens is an `if` or a `loop`. -/
def hidesEnd (ts : List Token) : Bool :=
  match ts.head?.bind Token.mark? with
  | some .if_ | some .loop => true
  | _ => false

/-- Properly nested constructs, in which the `end` of a block is `n` times followed
    by an `if` or a `loop` that does not belong to it.  A `case` behind an `end`
    belongs to it. -/
inductive Nested : Nat → List Token → Prop where
  | nil : Nested 0 []
  | plain {n : Nat} {t : Token} {ts : List Token} : t.mark? = none → Nested n ts → Nested n (t :: ts)
  /-- `begin … end`, `case … end` -/
  | block {m n : Nat} {a e : Token} {inner rest : List Token} :
      a.mark? = some .begin ∨ a.mark? = some .case → Nested m inner → e.mark? = some .end_ →
      rest.head?.bind Token.mark? ≠ some .case → Nested n rest →
      Nested (m + n + if hidesEnd rest then 1 else 0) (a :: (inner ++ e :: rest))
  /-- `case … end case` -/
  | caseStatement {m n : Nat} {a e c : Token} {inner rest : List Token} :
      a.mark? = some .case → Nested m inner → e.mark? = some .end_ → c.mark? = some .case →
      Nested n rest → Nested (m + n) (a :: (inner ++ e :: c :: rest))
  /-- `if … end if`, `loop … end loop` -/
  | statement {m n : Nat} {a e c : Token} {inner rest : List Token} :
      a.mark? = some .if_ ∨ a.mark? = some .loop → Nested m inner → e.mark? = some .end_ →
      c.mark? = a.mark? → Nested n rest → Nested (m + n) (a :: (inner ++ e :: c :: rest))

/-- Whether tokens may follow the `end` of a block without being taken for a part
    of it. -/
def Free (ds : List DocToken) : Prop :=
  ∃ u us, ds = u :: us ∧ (u.token.mark? = none ∨ u.token.mark? = some .begin ∨ u.token.mark? = some .end_)

theorem plainTokens_eq_cons {ds : List DocToken} {t : Token} {ts : List Token}
    (h : plainTokens ds = t :: ts) : ∃ d ds', ds = d :: ds' ∧ d.token = t ∧ plainTokens ds' = ts :=
  List.map_eq_cons_iff.1 h

theorem plainTokens_eq_append {ds : List DocToken} {ts us : List Token}
    (h : plainTokens ds = ts ++ us) :
    ∃ ds₁ ds₂, ds = ds₁ ++ ds₂ ∧ plainTokens ds₁ = ts ∧ plainTokens ds₂ = us :=
  List.map_eq_append_iff.1 h

/-- The `end` of a block inside a body closes it, unless it is hidden. -/
theorem splitBody_end_free {depth : Nat} {e : DocToken} {ds us : List DocToken}
    (he : e.token.mark? = some .end_) (hcase : (plainTokens ds).head?.bind Token.mark? ≠ some .case)
    (hus : Free us) (hdepth : 1 ≤ depth) :
    splitBody (depth + 1) (e :: (ds ++ us)) =
      (e :: (splitBody (depth + if hidesEnd (plainTokens ds) then 1 else 0) (ds ++ us)).1,
        (splitBody (depth + if hidesEnd (plainTokens ds) then 1 else 0) (ds ++ us)).2) := by
  cases ds with
  | nil =>
    obtain ⟨u, us, rfl, hu⟩ := hus
    rw [List.nil_append, splitBody_end_block he (by grind), if_neg (by omega), if_neg (by grind)]
    rfl
  | cons u ds =>
    have hhead : (plainTokens (u :: ds)).head?.bind Token.mark? = u.token.mark? := rfl
    rw [hhead] at hcase
    simp only [hidesEnd, hhead, List.cons_append]
    by_cases hu : u.token.mark? = some .if_ ∨ u.token.mark? = some .loop
    · rw [splitBody_end_statement he hu]
      rcases hu with hu | hu <;> simp only [hu, if_true] <;> rw [splitBody_plain (by simp [hu])]
    · rw [splitBody_end_block he hu, if_neg (by omega), if_neg hcase]
      split
      · rename_i h
        exact absurd (.inl h) hu
      · rename_i h
        exact absurd (.inr h) hu
      · rfl

/-- Over nested constructs the count rises by what is hidden in them. -/
theorem splitBody_nested {n : Nat} {ts : List Token} (h : Nested n ts) {ds : List DocToken}
    (hds : plainTokens ds = ts) {depth : Nat} (hdepth : 1 ≤ depth) {us : List DocToken}
    (hus : Free us) :
    splitBody depth (ds ++ us) =
      (ds ++ (splitBody (depth + n) us).1, (splitBody (depth + n) us).2) := by
  induction h generalizing ds depth us with
  | nil =>
    obtain rfl : ds = [] := by simpa [plainTokens] using hds
    rfl
  | @plain n t ts ht _ ih =>
    obtain ⟨d, ds', rfl, rfl, hds'⟩ := plainTokens_eq_cons hds
    rw [List.cons_append, splitBody_plain (.inl ht), ih hds' hdepth hus]
    rfl
  | @block m n a e inner rest ha _ he hcase _ ihinner ihrest =>
    obtain ⟨d, ds', rfl, rfl, hds'⟩ := plainTokens_eq_cons hds
    obtain ⟨dinner, ds'', rfl, hinner, hds''⟩ := plainTokens_eq_append hds'
    obtain ⟨e, drest, rfl, rfl, rfl⟩ := plainTokens_eq_cons hds''
    have hbehind : Free (e :: drest ++ us) := ⟨e, _, rfl, .inr (.inr he)⟩
    rw [List.cons_append, splitBody_open ha, List.append_assoc, ihinner hinner (by omega) hbehind,
      Nat.add_right_comm, List.cons_append, splitBody_end_free he hcase hus (by omega),
      ihrest rfl (by omega) hus]
    simp [Nat.add_assoc, Nat.add_comm, Nat.add_left_comm]
  | @caseStatement m n a e c inner rest ha _ he hc _ ihinner ihrest =>
    obtain ⟨d, ds', rfl, rfl, hds'⟩ := plainTokens_eq_cons hds
    obtain ⟨dinner, ds'', rfl, hinner, hds''⟩ := plainTokens_eq_append hds'
    obtain ⟨e, ds₃, rfl, rfl, hds₃⟩ := plainTokens_eq_cons hds''
    obtain ⟨c, drest, rfl, rfl, hrest⟩ := plainTokens_eq_cons hds₃
    have hbehind : Free (e :: c :: drest ++ us) := ⟨e, _, rfl, .inr (.inr he)⟩
    rw [List.cons_append, splitBody_open (.inr ha), List.append_assoc,
      ihinner hinner (by omega) hbehind, Nat.add_right_comm, List.cons_append, List.cons_append,
      splitBody_end_case he hc (by omega), ihrest hrest (by omega) hus]
    simp [Nat.add_assoc]
  | @statement m n a e c inner rest ha _ he hc _ ihinner ihrest =>
    obtain ⟨d, ds', rfl, rfl, hds'⟩ := plainTokens_eq_cons hds
    obtain ⟨dinner, ds'', rfl, hinner, hds''⟩ := plainTokens_eq_append hds'
    obtain ⟨e, ds₃, rfl, rfl, hds₃⟩ := plainTokens_eq_cons hds''
    obtain ⟨c, drest, rfl, rfl, hrest⟩ := plainTokens_eq_cons hds₃
    have hbehind : Free (e :: c :: drest ++ us) := ⟨e, _, rfl, .inr (.inr he)⟩
    rw [List.cons_append, splitBody_plain (.inr ha), List.append_assoc,
      ihinner hinner hdepth hbehind, List.cons_append, List.cons_append,
      splitBody_end_statement he (hc ▸ ha), ihrest hrest (by omega) hus]
    simp [Nat.add_assoc]

/-! ## Bodies -/

/-- `create [or replace] package body name is`, or `as`. -/
inductive BodyHeader (name : String) : List Token → Prop where
  | mk {c p b n o : Token} {replace : List Token} : c.kind = .keyword .create →
      (replace = [] ∨ ∃ r s, replace = [r, s] ∧ r.kind = .keyword .or ∧ s.kind = .ident ∧
        s.lexeme = "replace") →
      p.kind = .keyword .package → b.kind = .keyword .body → n.kind = .ident → n.lexeme = name →
      n.mark? = none → o.kind = .keyword .is ∨ o.kind = .keyword .as →
      BodyHeader name (c :: (replace ++ [p, b, n, o]))

/-- `end;`, or `end name;`. -/
inductive BodyClosing (name : String) : List Token → Prop where
  | plain {e s : Token} : e.kind = .keyword .end_ → s.kind = .op .semicolon → BodyClosing name [e, s]
  | named {e n s : Token} : e.kind = .keyword .end_ → n.kind = .ident → n.lexeme = name →
      s.kind = .op .semicolon → BodyClosing name [e, n, s]

/-- The tokens of a body.  The `end` of blocks is `n` times hidden by what follows
    it, and `section_` tells whether the body has an initialization section. -/
inductive Body : (section_ : Bool) → (n : Nat) → List Token → Prop where
  | declarations {n : Nat} {name : String} {header decls closing : List Token} :
      BodyHeader name header → Nested n decls → BodyClosing name closing →
      Body false n (header ++ (decls ++ closing))
  | initialized {m n : Nat} {name : String} {header decls stmts closing : List Token} {b : Token} :
      BodyHeader name header → Nested m decls → b.kind = .keyword .begin → Nested n stmts →
      BodyClosing name closing → Body true (m + n) (header ++ (decls ++ b :: (stmts ++ closing)))

/-- The search for packages skips a body. -/
theorem returns_packages_body {i : Input} {c p b : DocToken} {replace ts rest : List DocToken}
    {ps : List Package} (hc : c.kind = .keyword .create)
    (hreplace : ∀ d ∈ replace, d.kind = .keyword .or ∨ d.kind = .ident)
    (hp : p.kind = .keyword .package) (hb : b.kind = .keyword .body) (hts : ts ≠ []) :
    Parser.packages.Returns i (c :: (replace ++ p :: b :: ts)) ps rest ↔
      Parser.Reaches i (splitBody 1 ts).1 (splitBody 1 ts).2 ∧
        Parser.packages.Returns i (splitBody 1 ts).2 ps rest := by
  have hclauses : ∀ d ∈ replace, d.kind ≠ .keyword .package ∧
      d.kind ≠ .op .semicolon ∧ d.kind ≠ .keyword .create := by
    intro d hd
    rcases hreplace d hd with hd | hd <;> simp [hd]
  have hcreate : (c :: replace).foldl pendingCreate none = some c := by
    rw [List.foldl_cons, show pendingCreate none c = some c by simp [pendingCreate, hc]]
    exact Parser.foldl_pendingCreate_eq fun d hd => (hclauses d hd).2
  have hplain : ∀ d ∈ c :: replace, d.kind ≠ .keyword .package :=
    List.forall_mem_cons.2 ⟨by simp [hc], fun d hd => (hclauses d hd).1⟩
  have hsplit : splitPackage none (c :: (replace ++ p :: b :: ts)) =
      (c :: replace, p :: b :: ts) :=
    Parser.splitPackage_eq hplain hp (by rw [hcreate]; rfl)
  have hnext : ∀ {create? mid}, Parser.nextCreate?.Returns i (c :: (replace ++ p :: b :: ts))
      create? mid ↔ create? = some c ∧ mid = p :: b :: ts := by
    intro create? mid
    rw [Parser.returns_nextCreate?, hsplit]
    simp only [hcreate, Parser.Reaches]
    grind
  rw [Parser.returns_packages]
  constructor
  · rintro ⟨create?, mid, hcreate, hloop⟩
    obtain ⟨rfl, rfl⟩ := hnext.1 hcreate
    obtain ⟨-, x, mid', hstep, hrest⟩ := Parser.returns_iterate_cons.1 hloop
    obtain ⟨package?, mid'', create?, hpackage, hnext', rfl⟩ := Parser.returns_packageStep.1 hstep
    obtain ⟨rfl, rfl, hreaches⟩ := (Parser.returns_package?_body hb hts).1 hpackage
    refine ⟨hreaches, Parser.returns_packages.2 ⟨create?, mid', hnext', ?_⟩⟩
    cases create? <;> simpa using hrest
  · rintro ⟨hreaches, hpackages⟩
    obtain ⟨create?, mid', hnext', hrest⟩ := Parser.returns_packages.1 hpackages
    refine ⟨some c, p :: b :: ts, hnext.2 ⟨rfl, rfl⟩, Parser.returns_iterate_cons.2 ⟨?_, ?_⟩⟩
    · exact fun _ h => absurd h (by simp)
    · refine ⟨_, mid', Parser.returns_packageStep.2 ⟨none, _, create?,
        (Parser.returns_package?_body hb hts).2 ⟨rfl, rfl, hreaches⟩, hnext', rfl⟩, ?_⟩
      cases create? <;> simpa using hrest

/-- The search for packages passes over statements that create nothing. -/
theorem returns_packages_skip {i : Input} {ds us rest : List DocToken} {ps : List Package}
    (hds : ∀ d ∈ ds, d.kind ≠ .keyword .create) (hend : us = [] → i.fault? = none)
    (h : Parser.packages.Returns i us ps rest) : Parser.packages.Returns i (ds ++ us) ps rest := by
  have hfold := Parser.foldl_pendingCreate_none hds
  have hsplit := Parser.splitPackage_append_of_nil
    (congrArg Prod.snd (Parser.splitPackage_of_no_create hds)) us
  rw [hfold] at hsplit
  obtain ⟨create?, mid, hnext, hrest⟩ := Parser.returns_packages.1 h
  refine Parser.returns_packages.2 ⟨create?, mid, ?_, hrest⟩
  rw [Parser.returns_nextCreate?] at hnext ⊢
  rw [hsplit]
  obtain ⟨rfl, hreaches, rfl⟩ := hnext
  refine ⟨rfl, fun _ hnil => ?_, by simp [List.foldl_append, hfold]⟩
  cases us with
  | nil => exact hend rfl
  | cons u us =>
    refine hreaches (fun hpassed => ?_) hnil
    have hsplit := splitPackage_append none (u :: us)
    rw [hpassed, show (splitPackage none (u :: us)).2 = [] from hnil] at hsplit
    cases hsplit

theorem BodyHeader.split {name : String} {ts : List Token} (h : BodyHeader name ts)
    {ds : List DocToken} (hds : plainTokens ds = ts) :
    ∃ c replace p b n o, ds = c :: (replace ++ p :: b :: [n, o]) ∧ c.kind = .keyword .create ∧
      (∀ d ∈ replace, d.kind = .keyword .or ∨ d.kind = .ident) ∧ p.kind = .keyword .package ∧
      b.kind = .keyword .body ∧ n.token.kind = .ident ∧ n.token.lexeme = name ∧
      n.token.mark? = none ∧ o.token.mark? = none := by
  obtain @⟨c, p, b, n, o, replace, hc, hreplace, hp, hb, hn, hname, hmark, ho⟩ := h
  obtain ⟨c, ds₁, rfl, rfl, h₁⟩ := plainTokens_eq_cons hds
  obtain ⟨dreplace, ds₂, rfl, h₂, h₃⟩ := plainTokens_eq_append h₁
  obtain ⟨p, ds₃, rfl, rfl, h₄⟩ := plainTokens_eq_cons h₃
  obtain ⟨b, ds₄, rfl, rfl, h₅⟩ := plainTokens_eq_cons h₄
  obtain ⟨n, ds₅, rfl, rfl, h₆⟩ := plainTokens_eq_cons h₅
  obtain ⟨o, ds₆, rfl, rfl, h₇⟩ := plainTokens_eq_cons h₆
  obtain rfl : ds₆ = [] := by simpa [plainTokens] using h₇
  refine ⟨c, dreplace, p, b, n, o, rfl, hc, ?_, hp, hb, hn, hname, hmark, ?_⟩
  · intro d hd
    have hmem : d.token ∈ replace := h₂ ▸ List.mem_map_of_mem hd
    rcases hreplace with rfl | ⟨r, s, rfl, hr, hs, -⟩
    · cases hmem
    · rcases List.mem_cons.1 hmem with hd | hd
      · exact .inl ((congrArg Token.kind hd).trans hr)
      · exact .inr ((congrArg Token.kind (List.mem_singleton.1 hd)).trans hs)
  · rcases ho with ho | ho <;> simp [Token.mark?, ho]

theorem BodyClosing.split {name : String} {ts : List Token} (h : BodyClosing name ts)
    (hname : ∀ n : Token, n.kind = .ident → n.lexeme = name → n.mark? = none)
    {ds : List DocToken} (hds : plainTokens ds = ts) :
    ∃ e tail, ds = e :: tail ∧ e.token.mark? = some .end_ ∧ tail ≠ [] ∧
      ∀ d ∈ tail, d.token.mark? = none ∧ d.kind ≠ .keyword .create := by
  cases h with
  | plain he hs =>
    obtain ⟨e, ds₁, rfl, rfl, h₁⟩ := plainTokens_eq_cons hds
    obtain ⟨s, ds₂, rfl, rfl, h₂⟩ := plainTokens_eq_cons h₁
    obtain rfl : ds₂ = [] := by simpa [plainTokens] using h₂
    refine ⟨e, [s], rfl, by simp [Token.mark?, he], by simp, ?_⟩
    intro d hd
    rw [List.mem_singleton.1 hd]
    exact ⟨by simp [Token.mark?, hs], by simp [DocToken.kind, hs]⟩
  | named he hn hlexeme hs =>
    obtain ⟨e, ds₁, rfl, rfl, h₁⟩ := plainTokens_eq_cons hds
    obtain ⟨n, ds₂, rfl, rfl, h₂⟩ := plainTokens_eq_cons h₁
    obtain ⟨s, ds₃, rfl, rfl, h₃⟩ := plainTokens_eq_cons h₂
    obtain rfl : ds₃ = [] := by simpa [plainTokens] using h₃
    refine ⟨e, [n, s], rfl, by simp [Token.mark?, he], by simp, ?_⟩
    intro d hd
    rcases List.mem_cons.1 hd with rfl | hd
    · exact ⟨hname _ hn hlexeme, by simp [DocToken.kind, hn]⟩
    · rw [List.mem_singleton.1 hd]
      exact ⟨by simp [Token.mark?, hs], by simp [DocToken.kind, hs]⟩

/-- A body, up to its last `end` and behind it. -/
theorem Body.split {section_ : Bool} {n : Nat} {ts : List Token} (h : Body section_ n ts)
    {ds : List DocToken} (hds : plainTokens ds = ts) :
    ∃ c replace p b front e tail, ds = c :: (replace ++ p :: b :: (front ++ e :: tail)) ∧
      c.kind = .keyword .create ∧ (∀ d ∈ replace, d.kind = .keyword .or ∨ d.kind = .ident) ∧
      p.kind = .keyword .package ∧ b.kind = .keyword .body ∧ e.token.mark? = some .end_ ∧
      tail ≠ [] ∧ (∀ d ∈ tail, d.token.mark? = none ∧ d.kind ≠ .keyword .create) ∧
      ∀ us, splitBody 1 (front ++ e :: us) =
        (front ++ (splitBody (1 + n + section_.toNat) (e :: us)).1,
          (splitBody (1 + n + section_.toNat) (e :: us)).2) := by
  have hsame : ∀ {n : DocToken} {name : String}, n.token.kind = .ident → n.token.lexeme = name →
      n.token.mark? = none → ∀ t : Token, t.kind = .ident → t.lexeme = name → t.mark? = none := by
    intro n name hkind hlexeme hmark t htkind htlexeme
    simp only [Token.mark?, hkind, hlexeme] at hmark
    simpa only [Token.mark?, htkind, htlexeme] using hmark
  cases h with
  | @declarations n name header decls closing hheader hdecls hclosing =>
    obtain ⟨dheader, ds₁, rfl, h₁, h₂⟩ := plainTokens_eq_append hds
    obtain ⟨ddecls, dclosing, rfl, h₃, h₄⟩ := plainTokens_eq_append h₂
    obtain ⟨c, replace, p, b, x, o, rfl, hc, hreplace, hp, hb, hx, hname, hxmark, homark⟩ :=
      hheader.split h₁
    obtain ⟨e, tail, rfl, he, htail, hplain⟩ := hclosing.split (hsame hx hname hxmark) h₄
    refine ⟨c, replace, p, b, x :: o :: ddecls, e, tail, by simp, hc, hreplace, hp, hb, he, htail,
      hplain, fun us => ?_⟩
    have hnested : Nested n (x.token :: o.token :: decls) := .plain hxmark (.plain homark hdecls)
    exact splitBody_nested hnested (by simp [← h₃, plainTokens]) (Nat.le_refl 1)
      ⟨e, us, rfl, .inr (.inr he)⟩
  | @initialized m n name header decls stmts closing start hheader hdecls hstart hstmts hclosing =>
    obtain ⟨dheader, ds₁, rfl, h₁, h₂⟩ := plainTokens_eq_append hds
    obtain ⟨ddecls, ds₂, rfl, h₃, h₄⟩ := plainTokens_eq_append h₂
    obtain ⟨start, ds₃, rfl, rfl, h₅⟩ := plainTokens_eq_cons h₄
    obtain ⟨dstmts, dclosing, rfl, h₆, h₇⟩ := plainTokens_eq_append h₅
    obtain ⟨c, replace, p, b, x, o, rfl, hc, hreplace, hp, hb, hx, hname, hxmark, homark⟩ :=
      hheader.split h₁
    obtain ⟨e, tail, rfl, he, htail, hplain⟩ := hclosing.split (hsame hx hname hxmark) h₇
    refine ⟨c, replace, p, b, x :: o :: ddecls ++ start :: dstmts, e, tail, by simp, hc, hreplace,
      hp, hb, he, htail, hplain, fun us => ?_⟩
    have hnested : Nested m (x.token :: o.token :: decls) := .plain hxmark (.plain homark hdecls)
    have hmark : start.token.mark? = some .begin := by simp [Token.mark?, hstart]
    have hfree : Free (start :: (dstmts ++ e :: us)) := ⟨start, _, rfl, .inr (.inl hmark)⟩
    have hfree' : Free (e :: us) := ⟨e, us, rfl, .inr (.inr he)⟩
    have hplace : plainTokens (x :: o :: ddecls) = x.token :: o.token :: decls := by
      simp [← h₃, plainTokens]
    have hsplit : x :: o :: ddecls ++ start :: dstmts ++ e :: us =
        x :: o :: ddecls ++ start :: (dstmts ++ e :: us) := by simp
    rw [hsplit, splitBody_nested hnested hplace (Nat.le_refl 1) hfree, splitBody_open (.inl hmark),
      splitBody_nested hstmts h₆ (by omega) hfree']
    simp [Nat.add_assoc, Nat.add_comm, Nat.add_left_comm]

/-! ## What follows a body -/

section
variable {i : Input} {section_ : Bool} {n : Nat} {ts : List Token} {ds : List DocToken}

/-- A body in which the count is right leaves what follows it alone. -/
theorem Body.returns_packages (h : Body false 0 ts) (hds : plainTokens ds = ts)
    {us rest : List DocToken} {ps : List Package} (hend : us = [] → i.fault? = none)
    (hus : Parser.packages.Returns i us ps rest) : Parser.packages.Returns i (ds ++ us) ps rest := by
  obtain ⟨c, replace, p, b, front, e, tail, rfl, hc, hreplace, hp, hb, he, htail, hplain, hsplit⟩ :=
    h.split hds
  have hbody : splitBody 1 (front ++ e :: (tail ++ us)) = (front ++ [e], tail ++ us) := by
    obtain ⟨t, tail, rfl⟩ := List.exists_cons_of_ne_nil htail
    have ht := (hplain t (by simp)).1
    rw [hsplit, List.cons_append, show 1 + 0 + false.toNat = 0 + 1 from rfl,
      splitBody_end_block he (by simp [ht])]
    rfl
  have hassoc : c :: (replace ++ p :: b :: (front ++ e :: tail)) ++ us =
      c :: (replace ++ p :: b :: (front ++ e :: (tail ++ us))) := by simp
  rw [hassoc, returns_packages_body hc hreplace hp hb (by simp), hbody]
  refine ⟨fun _ hnil => absurd (List.append_eq_nil_iff.1 hnil).1 htail, ?_⟩
  exact returns_packages_skip (fun d hd => (hplain d hd).2) hend hus

theorem splitBody_plain_all {depth : Nat} (h : ∀ d ∈ ds, d.token.mark? = none) :
    splitBody depth ds = (ds, []) := by
  induction ds with
  | nil => rfl
  | cons d ds ih =>
    rw [splitBody_plain (.inl (h d (by simp))), ih fun d hd => h d (by simp [hd])]

theorem nested_plain (h : ∀ t ∈ ts, t.mark? = none) : Nested 0 ts := by
  induction ts with
  | nil => exact .nil
  | cons t ts ih => exact .plain (h t (by simp)) (ih fun t ht => h t (by simp [ht]))

/-- Where the count is too high behind a body, a package that follows it, with no
    declarations that nest, is skipped with it. -/
theorem Body.returns_nothing (h : Body section_ n ts) (hds : plainTokens ds = ts)
    (hn : 0 < n + section_.toNat) (hfault : i.fault? = none) {as bs : List DocToken} {e : DocToken}
    (has : ∀ d ∈ as, d.token.mark? = none) (he : e.token.mark? = some .end_) (hbs : bs ≠ [])
    (hplain : ∀ d ∈ bs, d.token.mark? = none ∧ d.kind ≠ .keyword .create) :
    Parser.packages.Returns i (ds ++ (as ++ e :: bs)) [] [] := by
  obtain ⟨c, replace, p, b, front, e', tail, rfl, hc, hreplace, hp, hb, he', htail, hplain', hsplit⟩ :=
    h.split hds
  obtain ⟨k, hk⟩ : ∃ k, 1 + n + section_.toNat = k + 1 + 1 := ⟨n + section_.toNat - 1, by omega⟩
  have hassoc : c :: (replace ++ p :: b :: (front ++ e' :: tail)) ++ (as ++ e :: bs) =
      c :: (replace ++ p :: b :: (front ++ e' :: (tail ++ (as ++ e :: bs)))) := by simp
  have hswallow : (splitBody (k + 1 + 1) (e' :: (tail ++ (as ++ e :: bs)))).2 =
      (splitBody (k + 1) (e :: bs)).2 := by
    obtain ⟨t, tail, rfl⟩ := List.exists_cons_of_ne_nil htail
    have ht := (hplain' t (by simp)).1
    have hnested : Nested 0 (plainTokens (t :: tail ++ as)) := by
      refine nested_plain fun u hu => ?_
      obtain ⟨d, hd, rfl⟩ := List.mem_map.1 hu
      rcases List.mem_append.1 hd with hd | hd
      · exact (hplain' d hd).1
      · exact has d hd
    have hfree : Free (e :: bs) := ⟨e, bs, rfl, .inr (.inr he)⟩
    rw [List.cons_append, splitBody_end_block he' (by simp [ht]), if_neg (by omega),
      if_neg (by simp [ht])]
    show (splitBody (k + 1) (t :: tail ++ (as ++ e :: bs))).2 = _
    rw [← List.append_assoc, splitBody_nested hnested rfl (by omega) hfree]
  have hleft : (splitBody (k + 1) (e :: bs)).2 = bs ∨ (splitBody (k + 1) (e :: bs)).2 = [] := by
    obtain ⟨u, bs, rfl⟩ := List.exists_cons_of_ne_nil hbs
    have hu := (hplain u (by simp)).1
    rw [splitBody_end_block he (by simp [hu])]
    by_cases hk : k = 0
    · rw [if_pos hk]
      exact .inl rfl
    · rw [if_neg hk, if_neg (by simp [hu]), splitBody_plain_all fun d hd => (hplain d hd).1]
      exact .inr rfl
  have hnothing : Parser.packages.Returns i (splitBody (k + 1) (e :: bs)).2 [] [] := by
    have hnil : Parser.packages.Returns i [] [] [] := Parser.returns_packages_nil.2 ⟨rfl, rfl⟩
    rcases hleft with hleft | hleft
    · rw [hleft, ← List.append_nil bs]
      exact returns_packages_skip (fun d hd => (hplain d hd).2) (fun _ => hfault) hnil
    · rw [hleft]
      exact hnil
  rw [hassoc, returns_packages_body hc hreplace hp hb (by simp), hsplit, hk, hswallow]
  exact ⟨.of_fault_none hfault _ _, hnothing⟩

end

/-- Whether a source leaves the packages of those that follow it on the next line
    as they are, moved by its bytes and the line feed, while the two together are
    below four gigabytes. -/
def Transparent (front : ByteArray) : Prop :=
  ∀ file source f, (parse file source).result = .ok f →
    front.size + 1 + source.size ≤ maxOffset →
    (parse file (front ++ "\n".toUTF8 ++ source)).result =
      .ok ⟨f.name, f.packages.map (·.recast (.shift (front.size + 1)))⟩

theorem transparent_of_body {source : ByteArray} {ts : List Token} (hscan : tokens? source = some ts)
    (hlast : ts.getLast?.map Token.kind = some (.op .semicolon))
    (hbody : Body false 0 (ts.filter (·.kind ≠ .comment))) : Transparent source := by
  obtain ⟨front, rfl, hcomplete⟩ := complete_of_tokens? hscan hlast
  intro file source f hf hsize
  obtain ⟨hfile, -, text, rfl, hparse⟩ := parse_eq_ok_iff.1 hf
  obtain ⟨rest, hreturns⟩ := packages_behind hcomplete hparse
  obtain ⟨ds, hds, htokens, -, hfault⟩ := ofText_append file hcomplete text
  obtain ⟨hreached, hname, -⟩ := Input.parse_eq_ok.1 hparse
  rw [← size_behind, utf8Encode_behind] at hsize
  rw [utf8Encode_behind, size_utf8Encode]
  refine parse_eq_ok_iff.2 ⟨hfile, hsize, _, rfl, Input.parse_eq_ok.2 ⟨?_, hname, rest, ?_⟩⟩
  · intro hnil
    rw [htokens] at hnil
    exact hfault.2 (hreached (by simpa using (List.append_eq_nil_iff.1 hnil).2))
  · rw [htokens]
    exact hbody.returns_packages hds (fun hnil => hfault.2 (hreached (by simpa using hnil))) hreturns

/-- A package that is easily missed. -/
def smallPackage : List Char := "create package p is end p;".toList

/-- Wherever it stands, its only word that matters is its `end`. -/
theorem smallPackage_tokens (n k : Nat) :
    ∃ as e bs, (Input.ofText "p.pks" smallPackage).tokens.map (·.shift n k) = as ++ e :: bs ∧
      (∀ d ∈ as, d.token.mark? = none) ∧ e.token.mark? = some .end_ ∧ bs ≠ [] ∧
      ∀ d ∈ bs, d.token.mark? = none ∧ d.kind ≠ .keyword .create := by
  have hmarks : (Input.ofText "p.pks" smallPackage).tokens.map (fun d => (d.token.mark?, d.kind)) =
      [(none, .keyword .create), (none, .keyword .package), (none, .ident), (none, .keyword .is)] ++
        (some .end_, .keyword .end_) :: [(none, .ident), (none, .op .semicolon)] := by
    decide +kernel
  have hshift : ((Input.ofText "p.pks" smallPackage).tokens.map (·.shift n k)).map
      (fun d => (d.token.mark?, d.kind)) = _ := (List.map_map ..).trans hmarks
  obtain ⟨as, es, hsplit, has, hes⟩ := List.map_eq_append_iff.1 hshift
  obtain ⟨e, bs, rfl, he, hbs⟩ := List.map_eq_cons_iff.1 hes
  refine ⟨as, e, bs, hsplit, ?_, congrArg Prod.fst he, ?_, ?_⟩
  · intro d hd
    have hmem := has ▸ List.mem_map_of_mem (f := fun d : DocToken => (d.token.mark?, d.kind)) hd
    grind
  · rintro rfl
    cases hbs
  · intro d hd
    have hmem := hbs ▸ List.mem_map_of_mem (f := fun d : DocToken => (d.token.mark?, d.kind)) hd
    grind

theorem not_transparent_of_body {source : ByteArray} {ts : List Token} {section_ : Bool} {n : Nat}
    (hscan : tokens? source = some ts)
    (hlast : ts.getLast?.map Token.kind = some (.op .semicolon))
    (hbody : Body section_ n (ts.filter (·.kind ≠ .comment)))
    (hroom : source.size + 1 + smallPackage.utf8Encode.size ≤ maxOffset)
    (hn : 0 < n + section_.toNat) : ¬ Transparent source := by
  obtain ⟨front, rfl, hcomplete⟩ := complete_of_tokens? hscan hlast
  intro htransparent
  have hsmall : (Input.ofText "p.pks" smallPackage).parse.result.toOption.map (·.packages.length) =
      some 1 := by decide +kernel
  obtain ⟨f, hf, hlength⟩ : ∃ f, (Input.ofText "p.pks" smallPackage).parse.result = .ok f ∧
      f.packages.length = 1 := by
    generalize (Input.ofText "p.pks" smallPackage).parse.result = result at hsmall
    cases result with
    | error e => simp [Except.toOption] at hsmall
    | ok f => exact ⟨f, rfl, by simpa [Except.toOption] using hsmall⟩
  obtain ⟨ds, hds, htokens, -, hfault⟩ := ofText_append "p.pks" hcomplete smallPackage
  have hreached := hfault.2 (by decide +kernel)
  obtain ⟨as, e, bs, hus, has, he, hbs, hplain⟩ := smallPackage_tokens _ _
  have hnothing := hbody.returns_nothing hds hn hreached has he hbs hplain
  rw [← hus, ← htokens] at hnothing
  have hnone : (parse "p.pks" (front.utf8Encode ++ "\n".toUTF8 ++ smallPackage.utf8Encode)).result =
      .ok ⟨"p.pks", []⟩ := by
    have hsize := hroom
    rw [← size_behind, utf8Encode_behind] at hsize
    rw [utf8Encode_behind]
    exact parse_eq_ok_iff.2 ⟨by decide, hsize, _, rfl, Input.parse_eq_ok.2
      ⟨fun _ => hreached, rfl, [], hnothing⟩⟩
  have hfound : (parse "p.pks" smallPackage.utf8Encode).result = .ok f :=
    parse_eq_ok_iff.2 ⟨by decide, by omega, _, rfl, hf⟩
  rw [htransparent "p.pks" smallPackage.utf8Encode f hfound hroom] at hnone
  have hpackages := congrArg (fun f : SourceFile => f.packages.length) (Except.ok.inj hnone)
  simp [hlength] at hpackages

/-- **A body changes nothing in what follows it if and only if** no `end` of a block
    in it is hidden and it has no initialization section; only if, where a package
    can follow it at all. -/
theorem transparent_iff {source : ByteArray} {ts : List Token} {section_ : Bool} {n : Nat}
    (hscan : tokens? source = some ts)
    (hlast : ts.getLast?.map Token.kind = some (.op .semicolon))
    (hbody : Body section_ n (ts.filter (·.kind ≠ .comment))) :
    (section_ = false ∧ n = 0 → Transparent source) ∧
      (source.size + 1 + smallPackage.utf8Encode.size ≤ maxOffset →
        (Transparent source ↔ section_ = false ∧ n = 0)) := by
  have hif : section_ = false ∧ n = 0 → Transparent source := by
    rintro ⟨rfl, rfl⟩
    exact transparent_of_body hscan hlast hbody
  refine ⟨hif, fun hroom => ⟨fun htransparent => ?_, hif⟩⟩
  by_contra hne
  refine not_transparent_of_body hscan hlast hbody hroom ?_ htransparent
  cases section_ with
  | false => exact Nat.pos_of_ne_zero fun hn => hne ⟨rfl, hn⟩
  | true => exact Nat.succ_pos n

/-- Nested statements and comments in a body are of no account. -/
theorem transparent_nested :
    Transparent "create package body b as if case end /**/ end if; end b;".toUTF8 := by
  have hheader : BodyHeader "b" (⟨.keyword .create, "create", 0, 6⟩ :: ([] ++
      [⟨.keyword .package, "package", 7, 14⟩, ⟨.keyword .body, "body", 15, 19⟩,
        ⟨.ident, "b", 20, 21⟩, ⟨.keyword .as, "as", 22, 24⟩])) :=
    .mk rfl (.inl rfl) rfl rfl rfl rfl rfl (.inr rfl)
  have hcase : Nested 0 (⟨.ident, "case", 28, 32⟩ :: ([] ++ [⟨.keyword .end_, "end", 33, 36⟩])) :=
    .block (.inr rfl) .nil rfl (by simp) .nil
  have hdecls : Nested 0 (⟨.keyword .if_, "if", 25, 27⟩ :: ([⟨.ident, "case", 28, 32⟩,
      ⟨.keyword .end_, "end", 33, 36⟩] ++ ⟨.keyword .end_, "end", 42, 45⟩ ::
      ⟨.keyword .if_, "if", 46, 48⟩ :: [⟨.op .semicolon, ";", 48, 49⟩])) :=
    .statement (.inl rfl) hcase rfl (by rfl) (.plain rfl .nil)
  have hclosing : BodyClosing "b" [⟨.keyword .end_, "end", 50, 53⟩, ⟨.ident, "b", 54, 55⟩,
      ⟨.op .semicolon, ";", 55, 56⟩] := .named rfl rfl rfl rfl
  have hscan : tokens? "create package body b as if case end /**/ end if; end b;".toUTF8 =
      some [⟨.keyword .create, "create", 0, 6⟩, ⟨.keyword .package, "package", 7, 14⟩,
        ⟨.keyword .body, "body", 15, 19⟩, ⟨.ident, "b", 20, 21⟩, ⟨.keyword .as, "as", 22, 24⟩,
        ⟨.keyword .if_, "if", 25, 27⟩, ⟨.ident, "case", 28, 32⟩, ⟨.keyword .end_, "end", 33, 36⟩,
        ⟨.comment, "/**/", 37, 41⟩, ⟨.keyword .end_, "end", 42, 45⟩, ⟨.keyword .if_, "if", 46, 48⟩,
        ⟨.op .semicolon, ";", 48, 49⟩, ⟨.keyword .end_, "end", 50, 53⟩, ⟨.ident, "b", 54, 55⟩,
        ⟨.op .semicolon, ";", 55, 56⟩] := by decide +kernel
  exact ((transparent_iff hscan rfl (.declarations hheader hdecls hclosing)).2
    (by decide +kernel)).2 ⟨rfl, rfl⟩

/-- The `begin` of an initialization section is counted, but its `end` is that of
    the body: the package behind it is missed. -/
theorem not_transparent_initialized :
    ¬ Transparent "create package body b is begin null; end b;".toUTF8 := by
  intro h
  have hparsed : ((parse "x.pks" "create package p is end p;".toUTF8).result.toOption.map
      (·.packages.length)) = some 1 := by decide +kernel
  have hmissed : ((parse "x.pks" ("create package body b is begin null; end b;".toUTF8 ++
      "\n".toUTF8 ++ "create package p is end p;".toUTF8)).result.toOption.map
      (·.packages.length)) = some 0 := by decide +kernel
  obtain ⟨f, hresult, hone⟩ := exists_ok_of_toOption hparsed
  rw [h "x.pks" _ f hresult (by decide +kernel)] at hmissed
  have hzero : (f.packages.map _).length = 0 := Option.some.inj hmissed
  rw [List.length_map] at hzero
  omega

end PackageDoc
