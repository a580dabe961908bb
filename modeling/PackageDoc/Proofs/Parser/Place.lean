/-
  Places in a text that is parsed.

  `Input.At i cs ds` says that the parser has come to where the text `cs` is left:
  the tokens `ds` that it has still to read are those of `cs`.  From there, a
  text that spells words brings the parser to the text behind it, over tokens
  that are these words and have no docs (`Input.At.take`), and the query of a
  cursor brings it behind the semicolon (`Input.At.query`).
-/
import Mathlib.Data.List.Forall2
import PackageDoc.Proofs.Decl.Canonical
import PackageDoc.Proofs.Parser.Source

namespace PackageDoc

open Text

/-! ## Words and docs -/

/-- The token is the word, and there is no comment before it. -/
structure DocToken.Shows (d : DocToken) (w : TokenKind × String) : Prop where
  kind : d.kind = w.1
  lexeme : d.lexeme = w.2
  slots : d.slots = {}

/-- The tokens are the words, without comments. -/
def Shown (ds : List DocToken) (ws : List (TokenKind × String)) : Prop :=
  List.Forall₂ DocToken.Shows ds ws

theorem DocToken.Shows.leadDoc {d : DocToken} {w : TokenKind × String} (h : d.Shows w) :
    d.leadDoc = none := by
  rw [DocToken.leadDoc, h.slots]

theorem DocToken.Shows.fieldDoc {d : DocToken} {w : TokenKind × String} (h : d.Shows w) :
    d.fieldDoc = none := by
  rw [DocToken.fieldDoc, h.slots]
  rfl

/-! ## Tokens of a piece of the text -/

/-- The tokens of the parser whose scanned tokens start with `ts`, where these end
    with a token of the parser. -/
theorem split_raw {ds : List DocToken} {ts us skipped : List Token}
    (hds : ∀ d ∈ ds, ∀ t ∈ d.skipped, t.kind = .comment)
    (hskipped : ∀ t ∈ skipped, t.kind = .comment)
    (hts : ∀ t ∈ ts.getLast?, t.kind ≠ .comment)
    (h : ds.flatMap DocToken.raw ++ skipped = ts ++ us) :
    ∃ ds₁ ds₂, ds = ds₁ ++ ds₂ ∧ ds₁.flatMap DocToken.raw = ts ∧
      ds₂.flatMap DocToken.raw ++ skipped = us := by
  induction ds generalizing ts with
  | nil =>
    rcases List.eq_nil_or_concat ts with rfl | ⟨ts, t, rfl⟩
    · exact ⟨[], [], rfl, rfl, h⟩
    · have hmem : t ∈ skipped := by
        rw [List.flatMap_nil, List.nil_append] at h
        simp [h]
      exact absurd (hskipped t hmem) (hts t (by simp))
  | cons d ds ih =>
    by_cases hnil : ts = []
    · subst hnil
      exact ⟨[], d :: ds, rfl, rfl, h⟩
    · rw [List.flatMap_cons, List.append_assoc] at h
      rcases List.append_eq_append_iff.1 h with ⟨ts', rfl, hus⟩ | ⟨us', hraw, hus⟩
      · have hts' : ∀ t ∈ ts'.getLast?, t.kind ≠ .comment := by
          intro t ht
          refine hts t ?_
          rw [List.getLast?_append]
          simpa using Or.inl ht
        obtain ⟨ds₁, ds₂, rfl, rfl, hds₂⟩ := ih (fun d hd => hds d (by simp [hd])) hts' hus
        exact ⟨d :: ds₁, ds₂, rfl, rfl, hds₂⟩
      · rcases List.eq_nil_or_concat us' with rfl | ⟨us', u, rfl⟩
        · exact ⟨[d], ds, rfl, by simpa using hraw, by simpa using hus.symm⟩
        · -- the tokens would end among the comments before `d`
          obtain ⟨ts', t, rfl⟩ := (List.eq_nil_or_concat ts).resolve_left hnil
          rw [List.concat_eq_append, List.concat_eq_append, ← List.append_assoc,
            DocToken.raw] at hraw
          have hmem : t ∈ d.skipped := by
            rw [(List.append_inj' hraw rfl).1]
            simp
          exact absurd (hds d (by simp) t hmem) (hts t (by simp))

/-- Tokens that were scanned without comments among them are their words. -/
theorem shown_of_raw {ds : List DocToken} {ts : List Token}
    (hslots : ∀ d ∈ ds, d.skipped = [] → d.slots = {})
    (hskipped : ∀ d ∈ ds, ∀ t ∈ d.skipped, t.kind = .comment)
    (hts : ∀ t ∈ ts, t.kind ≠ .comment) (h : ds.flatMap DocToken.raw = ts) :
    Shown ds (ts.map Token.word) := by
  subst h
  induction ds with
  | nil => exact .nil
  | cons d ds ih =>
    rw [List.flatMap_cons] at hts ⊢
    have hnil : d.skipped = [] := by
      refine List.eq_nil_iff_forall_not_mem.2 fun t ht => ?_
      exact hts t (by simp [DocToken.raw, ht]) (hskipped d (by simp) t ht)
    have hd : d.Shows d.token.word := ⟨rfl, rfl, hslots d (by simp) hnil⟩
    have ih := ih (fun d hd => hslots d (by simp [hd])) (fun d hd => hskipped d (by simp [hd]))
      fun t ht => hts t (List.mem_append_right _ ht)
    rw [DocToken.raw, hnil]
    exact .cons hd ih

/-- The first token that was scanned is one of the parser if it is no comment. -/
theorem token_eq_of_raw {d : DocToken} {ds : List DocToken} {t : Token} {ts : List Token}
    (h : (d :: ds).flatMap DocToken.raw = t :: ts) (ht : t.kind ≠ .comment)
    (hskipped : ∀ c ∈ d.skipped, c.kind = .comment) : d.token = t := by
  rw [List.flatMap_cons, DocToken.raw] at h
  cases hd : d.skipped with
  | nil =>
    rw [hd] at h
    exact (List.cons.inj h).1
  | cons c cs =>
    rw [hd] at h
    obtain rfl := (List.cons.inj h).1
    exact absurd (hskipped c (by simp [hd])) ht

/-! ## Places -/

namespace Input

/-- The parser has come to where `cs` is left of the text, and `ds` are its
    tokens. -/
structure At (i : Input) (cs : List Char) (ds : List DocToken) : Prop where
  suffix : ds <:+ i.tokens
  place : ∃ front rest, i.text = front ++ cs ∧ Spacing rest ∧
    Scans (byteLength front) cs (ds.flatMap DocToken.raw ++ i.eof.skipped) rest

variable {i : Input} {cs more : List Char} {ds : List DocToken}

theorem Scanned.at_start (hi : i.Scanned) (hfault : i.fault? = none) : i.At i.text i.tokens := by
  obtain ⟨rest, hscans, hspacing⟩ := hi.scans
  exact ⟨List.suffix_refl _, [], rest, rfl, hspacing hfault, hscans⟩

theorem At.skip {gap : List Char} (hgap : Spacing gap) (h : i.At (gap ++ cs) ds) : i.At cs ds := by
  obtain ⟨hsuffix, front, rest, htext, hrest, hscans⟩ := h
  obtain ⟨rest', hrest', hscans'⟩ := hscans.unindent hgap hrest
  exact ⟨hsuffix, front ++ gap, rest', by simpa using htext, hrest', by simpa using hscans'⟩

theorem At.eq_nil (h : i.At [] ds) : ds = [] := by
  obtain ⟨-, front, rest, -, -, hscans⟩ := h
  obtain ⟨hds, -⟩ := List.append_eq_nil_iff.1 hscans.of_nil.1
  cases ds with
  | nil => rfl
  | cons d ds => simp [DocToken.raw] at hds

/-- The tokens of a piece of the text, of which `P` holds wherever it stands, and
    the place behind it. -/
theorem At.split {P : Nat → List Token → Prop} (hi : i.Scanned) (h : i.At (cs ++ more) ds)
    (hlast : ∀ o ts, P o ts → ∀ t ∈ ts.getLast?, t.kind ≠ .comment)
    (hscans : ∀ o, ∃ ts gap, Spacing gap ∧ Scans o (cs ++ more) ts (gap ++ more) ∧ P o ts) :
    ∃ front ds₁ ds₂, i.text = front ++ cs ++ more ∧ ds = ds₁ ++ ds₂ ∧
      P (byteLength front) (ds₁.flatMap DocToken.raw) ∧ i.At more ds₂ := by
  obtain ⟨hsuffix, front, rest, htext, hrest, hall⟩ := h
  obtain ⟨ts, gap, hgap, hpiece, hts⟩ := hscans (byteLength front)
  obtain ⟨used, vs, hused, hraw, hvs⟩ := hpiece.deterministic hall hrest
  rw [← List.append_assoc] at hused
  obtain rfl : cs = used ++ gap := List.append_cancel_right hused
  obtain ⟨rest', hrest', hvs⟩ := hvs.unindent hgap hrest
  obtain ⟨ds₁, ds₂, rfl, rfl, rfl⟩ := split_raw (fun d hd => hi.comments d (hsuffix.subset hd))
    hi.eof_comments (hlast _ ts hts) hraw
  refine ⟨front, ds₁, ds₂, by simpa using htext, rfl, hts, ?_⟩
  refine ⟨(List.suffix_append ds₁ ds₂).trans hsuffix, front ++ (used ++ gap), rest', ?_, hrest', ?_⟩
  · simpa using htext
  · simpa [Nat.add_assoc] using hvs

/-- **A text that spells words** brings the parser over these words. -/
theorem At.take (hi : i.Scanned) {ws : List (TokenKind × String)} (h : i.At (cs ++ more) ds)
    (hcs : Spells cs ws) (hmore : ∀ c ∈ more.head?, isSeparator c = true)
    (hws : ∀ w ∈ ws, w.1 ≠ .comment) :
    ∃ ds₁ ds₂, ds = ds₁ ++ ds₂ ∧ Shown ds₁ ws ∧ i.At more ds₂ := by
  have hplain : ∀ ts : List Token, ts.map Token.word = ws → ∀ t ∈ ts, t.kind ≠ .comment := by
    rintro ts rfl t ht
    exact hws t.word (List.mem_map_of_mem ht)
  obtain ⟨front, ds₁, ds₂, -, rfl, hwords, hat⟩ := h.split (P := fun _ ts => ts.map Token.word = ws)
    hi (fun _ ts hts t ht => hplain ts hts t (List.mem_of_getLast? ht)) fun o => hcs o more hmore
  have hmem : ∀ d ∈ ds₁, d ∈ i.tokens := fun d hd => h.suffix.subset (List.mem_append_left _ hd)
  refine ⟨ds₁, ds₂, rfl, ?_, hat⟩
  rw [← hwords]
  exact shown_of_raw (fun d hd => hi.slots d (hmem d hd)) (fun d hd => hi.comments d (hmem d hd))
    (hplain _ hwords) rfl

end Input

/-! ## Statements and queries -/

/-- A text that ends with a semicolon has the same tokens wherever it stands, if a
    separator follows it. -/
theorem Scans.statement {cs more : List Char} {us : List Token} {t : Token}
    (h : Scans 0 cs (us ++ [t]) []) (ht : t.kind = .op .semicolon) (o : Nat)
    (hmore : ∀ c ∈ more.head?, isSeparator c = true) :
    Scans o (cs ++ more) ((us ++ [t]).map (·.shift o)) ([] ++ more) := by
  have hshift := h.shift o
  rw [Nat.zero_add] at hshift
  refine hshift.extend (.inr ⟨fun v hv => ?_, hmore⟩)
  obtain rfl : v = t.shift o := by simpa [eq_comm] using hv
  simp [Token.Closed, ht]

/-- The tokens of a query and of the semicolon behind it. -/
theorem scans_of_isQuery {text : String} (h : isQuery text = true) :
    ∃ us t u, (us ++ [t]).head? = some u ∧ u.kind ≠ .comment ∧ u.span.start = 0 ∧
      (∀ v ∈ us, v.kind ≠ .op .semicolon) ∧ t.kind = .op .semicolon ∧
      t.span.start = byteLength text.toList ∧
      Scans 0 (text.toList ++ [';']) (us ++ [t]) [] := by
  obtain ⟨ts, htokens, hts⟩ := (Option.any_eq_true _ _).1 h
  simp only [Bool.and_eq_true, Option.any_eq_true, decide_eq_true_eq, List.all_eq_true] at hts
  obtain ⟨⟨⟨u, hu, hplain, hstart⟩, hinner⟩, t, ht, hsemicolon⟩ := hts
  obtain ⟨us, rfl⟩ := List.getLast?_eq_some_iff.1 ht
  rw [List.dropLast_concat] at hinner
  obtain ⟨gap, hgap, hscans⟩ := scans_of_tokens? htokens
  rw [String.toList_append, show ";".toList = [';'] from rfl] at hscans
  -- the semicolon is the last token, so the text ends with it
  have hnil : gap = [] := by
    obtain ⟨used, hused⟩ := hscans.suffix
    refine (List.eq_nil_or_concat gap).resolve_right ?_
    rintro ⟨gap', c, rfl⟩
    rw [List.concat_eq_append, ← List.append_assoc] at hused
    obtain ⟨-, hc⟩ := List.append_inj' hused rfl
    cases hc
    exact absurd (hgap ';' (by simp)) (by decide)
  subst hnil
  refine ⟨us, t, u, hu, hplain, hstart, hinner, hsemicolon, ?_, hscans⟩
  have hscans' : Scans 0 ((text.toList ++ [';']) ++ []) (us ++ [t]) [] := by
    rwa [List.append_nil]
  have hstop := hscans'.getLast_stop ht
  obtain ⟨-, hlength⟩ := hscans.spelling_of_mem (by simp) hsemicolon (by decide)
  have hsize : byteLength Operator.semicolon.spelling.toList = byteLength [';'] := rfl
  rw [byteLength_append] at hstop
  omega

/-- **A query** brings the parser to the semicolon behind it, and the query is
    the source up to there. -/
theorem Input.At.query {i : Input} {more : List Char} {ds : List DocToken} {text : String}
    (hi : i.Scanned) (h : i.At (text.toList ++ [';'] ++ more) ds) (htext : isQuery text = true)
    (hmore : ∀ c ∈ more.head?, isSeparator c = true) :
    ∃ q s ds', ds = q ++ s :: ds' ∧ (∀ d ∈ q, d.kind ≠ .op .semicolon) ∧
      s.kind = .op .semicolon ∧
      slice i.text (i.current ds).span.start s.span.start = text.toList ∧ i.At more ds' := by
  obtain ⟨us, t, u, hu, hplain, hstart, hinner, hsemicolon, hstop, hscans⟩ := scans_of_isQuery htext
  have hlast : ∀ o, ∀ v ∈ ((us ++ [t]).map (·.shift o)).getLast?, v = t.shift o := by simp
  obtain ⟨front, ds₁, ds₂, hsource, rfl, hraw, hat⟩ :=
    h.split (P := fun o ts => ts = (us ++ [t]).map (·.shift o)) hi
      (by
        rintro o ts rfl v hv
        obtain rfl := hlast o v hv
        simp [hsemicolon])
      fun o => ⟨_, [], by simp [Spacing], hscans.statement hsemicolon o hmore, rfl⟩
  have hcomments : ∀ d ∈ ds₁, ∀ c ∈ d.skipped, c.kind = .comment := fun d hd =>
    hi.comments d (h.suffix.subset (List.mem_append_left _ hd))
  -- the query starts with a token of the parser
  have hfirst : (i.current (ds₁ ++ ds₂)).span.start = byteLength front := by
    obtain ⟨us', hus⟩ := List.head?_eq_some_iff.1 hu
    rw [hus, List.map_cons] at hraw
    cases ds₁ with
    | nil => cases hraw
    | cons d ds₁ =>
      have hd := token_eq_of_raw hraw (by simpa using hplain) (hcomments d (by simp))
      simp [Input.current, DocToken.span, hd, Token.shift, hstart]
  -- and ends before the semicolon
  rw [List.map_append, List.map_singleton] at hraw
  rcases List.eq_nil_or_concat ds₁ with rfl | ⟨q, s, rfl⟩
  · simp at hraw
  · rw [List.concat_eq_append, List.flatMap_append, List.flatMap_singleton, DocToken.raw,
      ← List.append_assoc] at hraw
    obtain ⟨hq, hs⟩ := List.append_inj' hraw rfl
    have hs : s.token = t.shift (byteLength front) := by simpa using hs
    refine ⟨q, s, ds₂, by simp, ?_, ?_, ?_, hat⟩
    · intro d hd hkind
      have hmem : d.token ∈ us.map (·.shift (byteLength front)) := by
        rw [← hq]
        exact List.mem_append_left _ (List.mem_flatMap.2 ⟨d, hd, by simp [DocToken.raw]⟩)
      obtain ⟨v, hv, hvd⟩ := List.mem_map.1 hmem
      have hkind' : (v.shift (byteLength front)).kind = .op .semicolon := by rw [hvd]; exact hkind
      exact hinner v hv hkind'
    · rw [DocToken.kind, hs, Token.kind_shift, hsemicolon]
    · have hstop' : s.span.start = byteLength front + byteLength text.toList := by
        rw [DocToken.span, hs, Nat.add_comm, ← hstop]
        rfl
      rw [hfirst, hstop', hsource, List.append_assoc, List.append_assoc, ← List.append_assoc]
      exact slice_append front text.toList _

end PackageDoc
