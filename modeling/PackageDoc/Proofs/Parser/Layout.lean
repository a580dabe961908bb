/-
  Layout and comments.

  What is parsed from a source is decided by its words, the kinds and lexemes of
  the tokens that are no comments.  Spacing, line breaks, the spelling of names
  in upper or lower case and comments only go into offsets, docs and the text of
  queries: two sources with the same words give the same file without these, or
  they are refused for the same reason (`parse_eq_of_words`).
-/
import PackageDoc.Proofs.Parser.Alike
import PackageDoc.Proofs.Parser.Source

namespace PackageDoc

open Text

/-- The words of a source: the kinds and lexemes of its tokens, comments apart;
    none if the source cannot be scanned. -/
def words? (source : ByteArray) : Option (List (TokenKind × String)) :=
  (tokens? source).map fun ts => (ts.filter (·.kind ≠ .comment)).map Token.word

/-- What remains of the result of parsing without offsets, docs, the text of
    queries and the lines of errors. -/
def bareResult (result : Except ParseError SourceFile) : Except ParseFault SourceFile :=
  (result.map (·.recast .bare)).mapError (·.fault)

/-! ## Comparing two sources -/

namespace Likeness

/-- Inputs are compared by words and by the reasons of errors. -/
def bareComparison : Comparison where
  left := .bare
  right := .bare
  error e e' := e.fault = e'.fault

theorem bareComparison_token {i j : Input} {t u : DocToken} (h : t.token.word = u.token.word) :
    bareComparison.Token i j t u where
  kind := congrArg Prod.fst h
  word _ := congrArg Prod.snd h
  text := congrArg Prod.snd h
  start := rfl
  stop := rfl
  inner := rfl
  lead := rfl
  field := rfl
  fails _ := rfl

/-- The query between two places of an input is empty if and only if they are the
    same place. -/
theorem isEmpty_slice_iff {i : Input} (hi : i.Scanned) (hfault : i.fault? = none)
    {ts ts' : List DocToken} (hts : ts <:+ i.tokens) (hts' : ts' <:+ ts) :
    (String.ofList (slice i.text (i.current ts).span.start (i.current ts').span.start)).isEmpty ↔
      ts'.length = ts.length := by
  by_cases hne : ts' = ts
  · subst hne
    simp [slice_self]
  · obtain ⟨front, body, back, htext, hbody, hstart, hstop⟩ :=
      hi.piece_between hts hts' hne fun _ => hfault
    have hlength : ts'.length ≠ ts.length := fun h => hne (hts'.eq_of_length h)
    rw [hstart, hstop, htext, slice_append]
    simp [hbody, hlength]

/-- Sources that were scanned to their ends are alike. -/
def ofScanned {i j : Input} (hi : i.Scanned) (hj : j.Scanned) (hif : i.fault? = none)
    (hjf : j.fault? = none) : Likeness i j where
  toComparison := bareComparison
  left_max _ _ := rfl
  right_max _ _ := rfl
  succ _ := rfl
  text_eq := rfl
  text_append _ _ := rfl
  eof := bareComparison_token (by
    have hword : ∀ {k : Input}, k.Scanned → k.fault? = none → k.eof.token.word = (.eof, "") :=
      fun hk hkf => by rw [hk.eof hkf]; rfl
    rw [hword hi hif, hword hj hjf])
  fault := .inl ⟨hif, hjf⟩
  query {ts us ts' us'} h h' hts hus := by
    have hlength := h.alike.length_eq
    have hlength' := h'.alike.length_eq
    have hiff := (isEmpty_slice_iff hi hif h.left hts).trans
      ((by rw [hlength, hlength']) : ts'.length = ts.length ↔ us'.length = us.length)
    have hiff := hiff.trans (isEmpty_slice_iff hj hjf h.right hus).symm
    simp only [bareComparison, Recast.bare, hiff]

/-- Tokens with the same words are alike. -/
theorem forall₂_of_words {i j : Input} {ts us : List DocToken}
    (h : (plainTokens ts).map Token.word = (plainTokens us).map Token.word) :
    List.Forall₂ (bareComparison.Token i j) ts us := by
  induction ts generalizing us with
  | nil =>
    cases us with
    | nil => exact .nil
    | cons => simp [plainTokens] at h
  | cons t ts ih =>
    cases us with
    | nil => simp [plainTokens] at h
    | cons u us =>
      simp only [plainTokens, List.map_cons, List.cons.injEq] at h
      exact .cons (bareComparison_token h.1) (ih h.2)

end Likeness

/-- What can be read off the words of a source. -/
theorem input_of_words {source : ByteArray} {words : List (TokenKind × String)} (file : String)
    (h : words? source = some words) :
    ∃ text, readSource source = .ok text ∧ (Input.ofText file text).fault? = none ∧
      (plainTokens (Input.ofText file text).tokens).map Token.word = words := by
  obtain ⟨ts, hts, rfl⟩ := Option.map_eq_some_iff.1 h
  obtain ⟨text, htext, rfl, t, hend⟩ := tokens?_eq_some.1 hts
  exact ⟨text, htext, Input.fault?_ofText_eq_none file hend, by rw [Input.plainTokens_ofText]⟩

/-- **Two sources with the same words are parsed alike**: they give the same file
    up to offsets, docs and the text of queries, of which it is kept whether it
    is empty, or they are refused for the same reason. -/
theorem parse_eq_of_words {file : String} {source source' : ByteArray}
    {w : List (TokenKind × String)} (hfile : file ≠ "") (h : words? source = some w)
    (h' : words? source' = some w) :
    bareResult (parse file source).result = bareResult (parse file source').result := by
  obtain ⟨text, hread, hfault, hwords⟩ := input_of_words file h
  obtain ⟨text', hread', hfault', hwords'⟩ := input_of_words file h'
  rw [parse_of_ok hfile hread, parse_of_ok hfile hread']
  have htokens := Likeness.forall₂_of_words (i := Input.ofText file text)
    (j := Input.ofText file text') (hwords.trans hwords'.symm)
  rcases (Likeness.ofScanned (Input.scanned_ofText file text) (Input.scanned_ofText file text')
    hfault hfault').parse htokens with ⟨ps, qs, hps, hqs, hpq⟩ | ⟨e, e', he, he', hee⟩
  · rw [hps, hqs]
    simp only [bareResult, Except.map, Except.mapError, SourceFile.recast]
    exact congrArg (fun packages => Except.ok (SourceFile.mk file packages)) hpq
  · rw [he, he']
    exact congrArg Except.error hee

/-- Line breaks, letter case and comments make no difference, though the comment
    is a doc in the second source. -/
theorem parse_eq_of_words_cursor :
    bareResult (parse "a.pks" "create package p is cursor c is select 1;end;".toUTF8).result =
      bareResult (parse "a.pks"
        "CREATE package p is\n-- all\ncursor C is /* one */ Select\n1; End;".toUTF8).result :=
  parse_eq_of_words (w := [(.keyword .create, "create"), (.keyword .package, "package"),
      (.ident, "p"), (.keyword .is, "is"), (.keyword .cursor, "cursor"), (.ident, "c"),
      (.keyword .is, "is"), (.ident, "select"), (.number, "1"), (.op .semicolon, ";"),
      (.keyword .end_, "end"), (.op .semicolon, ";")])
    (by decide) (by decide +kernel) (by decide +kernel)

end PackageDoc
