/-
  Declarations by themselves.

  What a declaration gives, up to offsets and docs, is decided by its own text:
  where the text of a declaration stands in a source is of no account, nor is what
  stands around it, as long as the parser stops before it has read the text to its
  end (`item_of_piece`).  In between stands the text by itself, as an input of its
  own: it is like the input that is cut off behind the tokens of the declaration
  (`Likeness.ofPiece`), and parsers that stop before the cut have not seen it.
-/
import PackageDoc.Proofs.Parser.Alike
import PackageDoc.Proofs.Parser.Local

namespace PackageDoc

open Text

/-- The tokens `ds` stand in the input as the tokens of the text `piece`. -/
def Input.Holds (i : Input) (piece : List Char) (ds : List DocToken) : Prop :=
  ∃ front back raw, i.text = front ++ piece ++ back ∧ Scans 0 piece raw [] ∧
    plainTokens ds = (raw.filter (·.kind ≠ .comment)).map (·.shift (byteLength front))

/-- The input that has only the tokens `ds`, and ends at the offset `stop`. -/
def Input.cut (i : Input) (ds : List DocToken) (stop : Nat) : Input :=
  { i with
    tokens := ds
    eof := ⟨Scanner.endToken stop, 0, [], {}⟩
    fault? := none }

/-! ## The text as an input -/

section
variable {piece : List Char} {raw : List Token}

/-- A text that is scanned to its end, as an input. -/
theorem Scans.ofText (h : Scans 0 piece raw []) (file : String) :
    (Input.ofText file piece).fault? = none ∧
      (Input.ofText file piece).eof.token = Scanner.endToken (byteLength piece) ∧
      plainTokens (Input.ofText file piece).tokens = raw.filter (·.kind ≠ .comment) := by
  have h' : Scans 0 (piece ++ []) raw [] := by rwa [List.append_nil]
  have hscan := scanText_eq h' (.eof (by simp [Spacing]))
  rw [List.append_nil] at hscan
  have hfault := Input.fault?_ofText_eq_none file (congrArg (·.ending) hscan)
  refine ⟨hfault, (Input.scanned_ofText file piece).eof hfault, ?_⟩
  rw [Input.plainTokens_ofText, hscan]

end

/-! ## Likeness -/

namespace Likeness

/-- Inputs are compared up to offsets and docs. -/
def undocumentedComparison : Comparison where
  left := .undocumented
  right := .undocumented
  error _ _ := True

theorem undocumentedComparison_token {i j : Input} {t u : DocToken} {n : Nat}
    (h : t.token = u.token.shift n) : undocumentedComparison.Token i j t u where
  kind := by rw [DocToken.kind, h]; rfl
  word _ := by rw [DocToken.lexeme, h]; rfl
  text := by rw [DocToken.lexeme, h]; rfl
  start := rfl
  stop := rfl
  inner := rfl
  lead := rfl
  field := rfl
  fails _ := trivial

theorem forall₂_of_shift {i j : Input} {ts us : List DocToken} {n : Nat}
    (h : plainTokens ts = (plainTokens us).map (·.shift n)) :
    List.Forall₂ (undocumentedComparison.Token i j) ts us := by
  induction us generalizing ts with
  | nil =>
    obtain rfl : ts = [] := by simpa [plainTokens] using h
    exact .nil
  | cons u us ih =>
    obtain ⟨t, ts, rfl, ht, hts⟩ := List.map_eq_cons_iff.1 h
    exact .cons (undocumentedComparison_token ht) (ih hts)

/-- Places that are equally far from the end, in a text and where it stands. -/
theorem start_of_length {i : Input} {file : String} {piece : List Char} {ds ts us : List DocToken}
    {n : Nat} (hpiece : (Input.ofText file piece).eof.token = Scanner.endToken (byteLength piece))
    (hds : plainTokens ds = (plainTokens (Input.ofText file piece).tokens).map (·.shift n))
    (hts : ts <:+ ds) (hus : us <:+ (Input.ofText file piece).tokens)
    (hlength : ts.length = us.length) :
    ((i.cut ds (n + byteLength piece)).current ts).span.start =
      n + ((Input.ofText file piece).current us).span.start := by
  have htokens : plainTokens ts = (plainTokens us).map (·.shift n) := by
    have hleft : plainTokens ts <:+ plainTokens ds := hts.map _
    have hright : (plainTokens us).map (·.shift n) <:+ plainTokens ds := by
      rw [hds]
      exact (hus.map _).map _
    exact (List.suffix_of_suffix_length_le hleft hright (by simp [plainTokens, hlength])).eq_of_length
      (by simp [plainTokens, hlength])
  cases us with
  | nil =>
    obtain rfl : ts = [] := List.length_eq_zero_iff.1 hlength
    simp [Input.current, Input.cut, DocToken.span, hpiece, Scanner.endToken]
  | cons u us =>
    obtain ⟨t, ts, rfl, ht, -⟩ := List.map_eq_cons_iff.1 htokens
    simp [Input.current, DocToken.span, ht, Token.shift, Nat.add_comm]

/-- The input that is cut off behind a text is like the text by itself. -/
def ofPiece {i : Input} {front piece back : List Char} {raw : List Token} {ds : List DocToken}
    (file : String) (htext : i.text = front ++ piece ++ back) (hscans : Scans 0 piece raw [])
    (hds : plainTokens ds = (raw.filter (·.kind ≠ .comment)).map (·.shift (byteLength front))) :
    Likeness (i.cut ds (byteLength front + byteLength piece)) (Input.ofText file piece) where
  toComparison := undocumentedComparison
  left_max _ _ := rfl
  right_max _ _ := rfl
  succ _ := rfl
  text_eq := rfl
  text_append _ _ := rfl
  eof := undocumentedComparison_token (n := byteLength front) (by
    rw [(hscans.ofText file).2.1]
    simp [Input.cut, Scanner.endToken, Token.shift, Nat.add_comm])
  fault := .inl ⟨rfl, (hscans.ofText file).1⟩
  query {ts us ts' us'} h h' hts hus := by
    obtain ⟨hfault, heof, htokens⟩ := hscans.ofText file
    rw [← htokens] at hds
    have hstart := start_of_length (i := i) heof hds h.left h.right h.alike.length_eq
    have hstart' := start_of_length (i := i) heof hds h'.left h'.right h'.alike.length_eq
    refine congrArg String.ofList ?_
    rw [hstart, hstart', show (i.cut _ _).text = _ from htext, List.append_assoc, slice_append_add]
    by_cases heq : us' = us
    · rw [heq, slice_self, slice_self]
    · obtain ⟨before, body, after, hbody, -, hbefore, hafter⟩ :=
        (Input.scanned_ofText file piece).piece_between h.right hus heq fun _ => hfault
      have hpiece : piece = before ++ body ++ after := hbody
      rw [hbefore, hafter, hbody, hpiece, List.append_assoc _ after back, slice_append, slice_append]

end Likeness

/-! ## Declarations -/

namespace Parser

variable {i j : Input} {piece : List Char} {ds es after after' rest : List DocToken} {item : Item}

/-- Declarations that differ in offsets and docs only, behind which the parser
    leaves tokens of the same kinds. -/
def SameItem (item item' : Item) (rest rest' : List DocToken) : Prop :=
  item.recast .undocumented = item'.recast .undocumented ∧
    rest.map DocToken.kind = rest'.map DocToken.kind

theorem SameItem.symm {item' : Item} {rest' : List DocToken} (h : SameItem item item' rest rest') :
    SameItem item' item rest' rest :=
  ⟨h.1.symm, h.2.symm⟩

theorem SameItem.trans {item' item'' : Item} {rest' rest'' : List DocToken}
    (h : SameItem item item' rest rest') (h' : SameItem item' item'' rest' rest'') :
    SameItem item item'' rest rest'' :=
  ⟨h.1.trans h'.1, h.2.trans h'.2⟩

theorem kinds_of_alike {k : Input} {C : Comparison} {rest' : List DocToken}
    (h : List.Forall₂ (C.Token i k) rest rest') :
    rest.map DocToken.kind = rest'.map DocToken.kind := by
  induction h with
  | nil => rfl
  | cons ht _ ih => rw [List.map_cons, List.map_cons, ht.kind, ih]

/-- **A declaration in its place and its text by itself.** -/
theorem item_piece (h : i.Holds piece ds) (file : String) (after : List DocToken) :
    (∀ item rest, rest ≠ [] → Returns item? i (ds ++ after) (some item) (rest ++ after) →
      ∃ item' rest', Returns item? (.ofText file piece) (Input.ofText file piece).tokens
        (some item') rest' ∧ SameItem item item' rest rest') ∧
    ∀ item' rest', rest' ≠ [] →
      Returns item? (.ofText file piece) (Input.ofText file piece).tokens (some item') rest' →
      ∃ item rest, Returns item? i (ds ++ after) (some item) (rest ++ after) ∧
        SameItem item item' rest rest' := by
  obtain ⟨front, back, raw, htext, hscans, hds⟩ := h
  have hlocal : Local (i.cut ds (byteLength front + byteLength piece)) i after item? :=
    Local.item? fun _ _ _ _ _ => rfl
  have htokens : plainTokens ds = _ := hds.trans (by rw [← (hscans.ofText file).2.2])
  have halike := (Likeness.ofPiece file htext hscans hds).item? ds _
    ⟨List.suffix_refl _, List.suffix_refl _, Likeness.forall₂_of_shift htokens⟩
  constructor
  · intro item rest hne hitem
    have hcut := (hlocal ds _ rest (List.suffix_refl ds) hne).2 hitem
    rw [show item?.outcome _ ds = _ from hcut] at halike
    generalize houtcome : item?.outcome _ (Input.ofText file piece).tokens = outcome at halike
    cases halike with
    | @ok _ b _ rest' hsame hrest =>
      obtain ⟨item', rfl, hitem'⟩ := Option.map_eq_some_iff.1 (Eq.symm hsame)
      exact ⟨item', rest', houtcome, hitem'.symm, kinds_of_alike hrest.alike⟩
  · intro item' rest' hne hitem'
    rw [show item?.outcome _ (Input.ofText file piece).tokens = _ from hitem'] at halike
    generalize houtcome : item?.outcome _ ds = outcome at halike
    cases halike with
    | @ok b _ rest _ hsame hrest =>
      obtain ⟨item, rfl, hitem⟩ := Option.map_eq_some_iff.1 hsame
      have hrest' : rest ≠ [] := by
        rintro rfl
        exact hne (List.forall₂_nil_left_iff.1 hrest.alike)
      refine ⟨item, rest, ?_, hitem, kinds_of_alike hrest.alike⟩
      exact (hlocal ds _ rest (List.suffix_refl ds) hrest').1 houtcome

/-- **A declaration gives the same wherever its text stands**, if the parser stops
    before the end of the text. -/
theorem item_of_piece (hi : i.Holds piece ds) (hj : j.Holds piece es) (hne : rest ≠ [])
    (hitem : Returns item? i (ds ++ after) (some item) (rest ++ after)) :
    ∃ item' rest', Returns item? j (es ++ after') (some item') (rest' ++ after') ∧
      SameItem item' item rest' rest := by
  obtain ⟨item₀, rest₀, hitem₀, hsame₀⟩ := (item_piece hi "" after).1 item rest hne hitem
  have hne₀ : rest₀ ≠ [] := by
    rintro rfl
    exact hne (List.map_eq_nil_iff.1 hsame₀.2)
  obtain ⟨item', rest', hitem', hsame'⟩ := (item_piece hj "" after').2 item₀ rest₀ hne₀ hitem₀
  exact ⟨item', rest', hitem', hsame'.trans hsame₀.symm⟩

end Parser

end PackageDoc
