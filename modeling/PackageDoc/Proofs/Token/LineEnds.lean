/-
  Tokens where lines end with carriage returns.

  A scan of a text with returns passes over the tokens of the text without them.
  Between tokens a return is spacing, a comment loses it, and a string keeps it: it
  is the only token of which the lexeme tells (`Token.returnedLexeme`).  A line
  comment takes the return of its line end with it and leaves the line feed, so the
  two scans need not stand at the same place; `Cuts` says where they stand, and the
  spacing before the next token brings them together again (`Cuts.spacing`).

  `Reads.withReturns` is this for one token, `Scans.withReturns` for a run of them,
  and `scanText_withReturns` for a whole text, its end or fault included.
-/
import PackageDoc.Proofs.Text.LineEnds
import PackageDoc.Proofs.Token.Scan

namespace PackageDoc

open Text

/-! ## Strings and comments -/

theorem splitString_withReturns (cs : List Char) :
    splitString (withReturns cs) =
      (withReturns (splitString cs).1, withReturns (splitString cs).2) := by
  fun_induction splitString cs with
  | case1 => rfl
  | case2 cs body rest hsplit ih =>
    rw [hsplit] at ih
    simp only [withReturns_cons (show '\'' ≠ '\n' by decide), splitString, ih]
  | case3 cs hcs =>
    have hhead : ∀ d ∈ (withReturns cs).head?, d ≠ '\'' := by
      refine head?_withReturns ?_ (by decide)
      rintro d hd rfl
      obtain ⟨ds, rfl⟩ := List.head?_eq_some_iff.1 hd
      exact hcs ds rfl
    rw [withReturns_cons (show '\'' ≠ '\n' by decide)]
    cases hreturns : withReturns cs with
    | nil => rfl
    | cons d ds =>
      rw [hreturns] at hhead
      have hd : d ≠ '\'' := hhead d rfl
      simp [splitString, hd]
  | case4 c cs hc hc' body rest hsplit ih =>
    rw [hsplit] at ih
    by_cases hfeed : c = '\n'
    · subst hfeed
      simp only [withReturns_newline]
      simp [splitString, ih]
    · have hquote : c ≠ '\'' := hc'
      simp [withReturns_cons hfeed, splitString, hquote, ih]

theorem splitComment?_withReturns (cs : List Char) :
    splitComment? (withReturns cs) =
      (splitComment? cs).map fun (body, rest) => (withReturns body, withReturns rest) := by
  fun_induction splitComment? cs with
  | case1 => rfl
  | case2 cs => simp [withReturns_cons, splitComment?]
  | case3 c cs hc ih =>
    have hmark : ¬ (c = '*' ∧ (withReturns cs).head? = some '/') := by
      rintro ⟨rfl, hhead⟩
      refine head?_withReturns (P := (· ≠ '/')) ?_ (by decide) '/' hhead rfl
      rintro d hd rfl
      obtain ⟨ds, rfl⟩ := List.head?_eq_some_iff.1 hd
      exact hc ds rfl rfl
    by_cases hfeed : c = '\n'
    · subst hfeed
      rw [withReturns_newline, splitComment?_cons (by simp), splitComment?_cons (by simp), ih]
      simp [Function.comp_def]
    · rw [withReturns_cons hfeed, splitComment?_cons hmark, ih]
      simp [Function.comp_def, withReturns_cons hfeed]

theorem dropReturns_eq {cs : List Char} (h : '\r' ∉ cs) (stays : List Char → Bool)
    (before : List Char) : dropReturns stays before cs = before.reverse ++ cs := by
  induction cs generalizing before with
  | nil => simp [dropReturns]
  | cons c cs ih =>
    rw [List.mem_cons, not_or] at h
    have hc : c ≠ '\r' := fun hc => h.1 hc.symm
    simp [dropReturns, ih h.2]

/-- A comment loses the returns of its line ends: no slash follows them. -/
theorem dropReturns_withReturns {cs : List Char} (h : '\r' ∉ cs) (stays : List Char → Bool)
    (before : List Char) : dropReturns stays before (withReturns cs) = before.reverse ++ cs := by
  induction cs generalizing before with
  | nil => simp [dropReturns]
  | cons c cs ih =>
    rw [List.mem_cons, not_or] at h
    by_cases hfeed : c = '\n'
    · subst hfeed
      simp [dropReturns, ih h.2]
    · have hc : c ≠ '\r' := fun hc => h.1 hc.symm
      simp [withReturns_cons hfeed, dropReturns, ih h.2]

theorem quoted_withReturns {body : List Char} (h : Quoted body) : Quoted (withReturns body) := by
  rw [Quoted, splitString_withReturns, h]
  rfl

theorem enclosed_withReturns {body : List Char} (h : Enclosed body) :
    Enclosed (withReturns body) := by
  rw [Enclosed, splitComment?_withReturns, h]
  rfl

theorem blockCommentLexeme_withReturns {cs : List Char} (h : '\r' ∉ cs) :
    blockCommentLexeme (withReturns cs) = blockCommentLexeme cs := by
  rw [blockCommentLexeme, blockCommentLexeme, dropReturns_withReturns h, dropReturns_eq h]

/-- A line comment loses the return of its line end. -/
theorem lineCommentLexeme_return (cs : List Char) :
    lineCommentLexeme (cs ++ ['\r']) = lineCommentLexeme cs := by
  simp [lineCommentLexeme]

/-! ## One token -/

/-- Where a scan stands in a text with returns, which without them has read `front`
    and is at `back`: at the same place, or between the return and the line feed of a
    line end. -/
inductive Cuts : (front back front' back' : List Char) → Prop where
  | same (front back : List Char) : Cuts front back (withReturns front) (withReturns back)
  | inside (front back : List Char) :
      Cuts front ('\n' :: back) (withReturns front ++ ['\r']) ('\n' :: withReturns back)

namespace Cuts

variable {front back front' back' : List Char}

theorem append_eq (h : Cuts front back front' back') :
    front' ++ back' = withReturns (front ++ back) := by
  cases h <;> simp

theorem append_left (h : Cuts front back front' back') (cs : List Char) :
    Cuts (cs ++ front) back (withReturns cs ++ front') back' := by
  cases h with
  | same =>
    rw [← withReturns_append]
    exact .same _ _
  | inside =>
    rw [← List.append_assoc, ← withReturns_append]
    exact .inside _ _

/-- Behind spacing the scans stand at the same place. -/
theorem spacing {gap : List Char} (h : Cuts front (gap ++ back) front' back') (hgap : Spacing gap)
    (hback : ∀ d ∈ back.head?, isSpacing d = false) :
    ∃ gap', Spacing gap' ∧ back' = gap' ++ withReturns back ∧
      front' ++ gap' = withReturns (front ++ gap) := by
  have hreturns : ∀ {gap : List Char}, Spacing gap → Spacing (withReturns gap) := by
    intro gap hgap c hc
    obtain ⟨d, hd, hc⟩ := List.mem_flatMap.1 hc
    split at hc
    · simp only [List.mem_cons, List.not_mem_nil, or_false] at hc
      rcases hc with rfl | rfl <;> rfl
    · rw [List.mem_singleton.1 hc]
      exact hgap d hd
  generalize hcs : gap ++ back = cs at h
  cases h with
  | same =>
    subst hcs
    exact ⟨withReturns gap, hreturns hgap, by simp, by simp⟩
  | inside _ =>
    -- the line feed that is left is spacing, so the gap starts with it
    cases gap with
    | nil =>
      rw [List.nil_append] at hcs
      rw [hcs] at hback
      have hfeed := hback '\n' rfl
      cases hfeed
    | cons c gap =>
      obtain ⟨rfl, rfl⟩ := List.cons.inj hcs
      refine ⟨'\n' :: withReturns gap, ?_, by simp, by simp⟩
      intro c hc
      rcases List.mem_cons.1 hc with rfl | hc
      · rfl
      · exact hreturns (fun d hd => hgap d (List.mem_cons_of_mem _ hd)) c hc

end Cuts

/-- The lexeme of a token where lines end with returns: a string keeps them. -/
def returnedLexeme (kind : TokenKind) (lexeme : List Char) : List Char :=
  if kind = .string then withReturns lexeme else lexeme

theorem returnedLexeme_word (cs : List Char) :
    returnedLexeme (wordKind (String.ofList (wordLexeme cs))) (wordLexeme cs) = wordLexeme cs := by
  refine if_neg ?_
  unfold wordKind
  split <;> simp

/-- A line comment where lines end with returns: it goes up to the line feed and takes
    the return before it. -/
theorem Reads.lineComment_withReturns {cs rest : List Char} (hcs : ∀ c ∈ cs, c ≠ '\n')
    (hrest : ∀ d ∈ rest.head?, d = '\n') :
    ∃ piece' rest', Reads .comment (lineCommentLexeme ('-' :: '-' :: cs)) piece' rest' ∧
      Cuts ('-' :: '-' :: cs) rest piece' rest' := by
  have hpiece : Text.withReturns ('-' :: '-' :: cs) = '-' :: '-' :: cs :=
    withReturns_eq_self (by simpa using hcs)
  cases rest with
  | nil =>
    have hcut := Cuts.same ('-' :: '-' :: cs) []
    rw [hpiece] at hcut
    exact ⟨_, _, .lineComment hcs (by simp), hcut⟩
  | cons d rest =>
    obtain rfl : d = '\n' := hrest d rfl
    have hreads : Reads .comment (lineCommentLexeme ('-' :: '-' :: cs ++ ['\r']))
        ('-' :: '-' :: cs ++ ['\r']) ('\n' :: Text.withReturns rest) :=
      .lineComment (by simpa [or_imp, forall_and] using hcs) (by simp)
    have hcut := Cuts.inside ('-' :: '-' :: cs) rest
    rw [lineCommentLexeme_return] at hreads
    rw [hpiece] at hcut
    exact ⟨_, _, hreads, hcut⟩

/-- **A token where lines end with returns.** -/
theorem Reads.withReturns {kind : TokenKind} {lexeme piece rest : List Char}
    (h : Reads kind lexeme piece rest) (hreturn : '\r' ∉ piece) :
    ∃ piece' rest', Reads kind (returnedLexeme kind lexeme) piece' rest' ∧
      Cuts piece rest piece' rest' := by
  -- all but a line comment end at the same place
  have hsame {piece' : List Char} (hpiece : Text.withReturns piece = piece')
      (h : Reads kind (returnedLexeme kind lexeme) piece' (Text.withReturns rest)) :
      ∃ piece' rest', Reads kind (returnedLexeme kind lexeme) piece' rest' ∧
        Cuts piece rest piece' rest' := ⟨piece', _, h, hpiece ▸ .same _ _⟩
  have hfeed : ∀ {a : Char}, isSpacing a = false → a ≠ '\n' := by
    rintro a ha rfl
    cases ha
  -- no token but a string or a comment goes on with a return
  obtain ⟨-, hname, hdigit, hquote, hpairs⟩ := isSeparator_class (c := '\r') rfl
  cases h with
  | @word c cs _ hc hcs hrest =>
    have hpiece : Text.withReturns (c :: cs) = c :: cs :=
      withReturns_of_class (isSeparator_class (c := '\n') rfl).2.1
        (List.forall_mem_cons.2 ⟨isNameChar_of_isNameStart hc, hcs⟩)
    rw [returnedLexeme_word] at hsame ⊢
    exact hsame hpiece (.word hc hcs (head?_withReturns hrest hname))
  | @number c cs _ hc hd hcs hrest =>
    have hpiece : Text.withReturns (c :: cs) = c :: cs :=
      withReturns_of_class (p := Char.isDigit) rfl (List.forall_mem_cons.2 ⟨hd, hcs⟩)
    exact hsame hpiece (.number hc hd hcs (head?_withReturns hrest hdigit))
  | string hquoted hrest =>
    have hpiece : Text.withReturns ('\'' :: lexeme ++ ['\'']) =
        '\'' :: Text.withReturns lexeme ++ ['\''] := by
      simp [withReturns_cons]
    exact hsame hpiece (.string (quoted_withReturns hquoted) (head?_withReturns hrest hquote))
  | openString hquoted =>
    exact hsame (withReturns_cons (by decide) lexeme) (.openString (quoted_withReturns hquoted))
  | lineComment hcs hrest => exact Reads.lineComment_withReturns hcs hrest
  | @blockComment body _ henclosed =>
    have hpiece : Text.withReturns ('/' :: '*' :: body) = '/' :: '*' :: Text.withReturns body := by
      simp [withReturns_cons]
    have hlexeme := blockCommentLexeme_withReturns hreturn
    have hreads : Reads .comment _ _ (Text.withReturns rest) :=
      .blockComment (enclosed_withReturns henclosed)
    rw [← hpiece, hlexeme, hpiece] at hreads
    exact hsame hpiece hreads
  | @pair a b op _ hpair =>
    have ha := hfeed (pairOperator?_class hpair).2.2.2.2.1
    have hb : b ≠ '\n' := by
      rintro rfl
      have hnone := (isSeparator_class (c := '\n') rfl).2.2.2.2 a
      simp [pairs, hpair] at hnone
    exact hsame (withReturns_eq_self (by simp [ha, hb])) (.pair hpair)
  | @single a op _ hop hrest =>
    have ha := hfeed (operatorChars_class (mem_of_operator?_singleton hop).1).2.2.2.2
    exact hsame (withReturns_eq_self (by simpa using ha))
      (.single hop (head?_withReturns hrest (hpairs a)))
  | @illegal a _ hop hmark hbar hstart hnumber hspacing hrest =>
    exact hsame (withReturns_eq_self (by simpa using hfeed hspacing))
      (.illegal hop hmark hbar hstart hnumber hspacing (head?_withReturns hrest (hpairs a)))

/-! ## Runs of tokens -/

/-- The offset `n` is, with returns, that of the place `m` of a text. -/
def ReturnedAt (text : List Char) (m n : Nat) : Prop :=
  ∃ front back, text = front ++ back ∧ m = byteLength front ∧ n = byteLength (withReturns front)

/-- The token `u` is, with returns, what `t` is in a text. -/
structure Token.Returned (text : List Char) (t u : Token) : Prop where
  kind : u.kind = t.kind
  lexeme : u.lexeme = String.ofList (returnedLexeme t.kind t.lexeme.toList)
  place : ReturnedAt text t.pos u.pos

/-- What a scan comes to in a text, and with returns. -/
inductive ReturnedEnding (text : List Char) :
    Except ScanError Token → Except ScanError Token → Prop where
  | ok {t u : Token} : t.Returned text u → ReturnedEnding text (.ok t) (.ok u)
  | error {e e' : ScanError} : e'.fault = e.fault → ReturnedAt text e.pos e'.pos →
      ReturnedEnding text (.error e) (.error e')

/-- **Tokens one after the other where lines end with returns.**  The induction is on
    the scan of the text without returns; what stands in front of it tells the places
    of the tokens. -/
theorem Scans.withReturns {o : Nat} {cs rest : List Char} {ts : List Token}
    (h : Scans o cs ts rest) {front front' cs' : List Char} (ho : o = byteLength front)
    (hreturn : '\r' ∉ cs) (hcut : Cuts front cs front' cs') :
    ∃ ts' used used' rest', Scans (byteLength front') cs' ts' rest' ∧
      List.Forall₂ (Token.Returned (front ++ cs)) ts ts' ∧ cs = used ++ rest ∧
      cs' = used' ++ rest' ∧ Cuts (front ++ used) rest (front' ++ used') rest' := by
  induction h generalizing front front' cs' with
  | nil =>
    exact ⟨[], [], [], cs', .nil, .nil, rfl, rfl, by simpa using hcut⟩
  | @cons o gap lexeme piece mid rest kind ts hgap hreads hscans ih =>
    subst ho
    simp only [List.mem_append, not_or] at hreturn
    obtain ⟨⟨-, hpiece⟩, hmid⟩ := hreturn
    have hhead : ∀ d ∈ (piece ++ mid).head?, isSpacing d = false := by
      rw [List.head?_append_of_ne_nil _ hreads.piece_ne_nil]
      exact hreads.head_not_spacing
    rw [List.append_assoc] at hcut
    obtain ⟨gap', hgap', rfl, hfront⟩ := hcut.spacing hgap hhead
    obtain ⟨piece', mid', hreads', hcut'⟩ := hreads.withReturns hpiece
    have hcut'' := hcut'.append_left (front ++ gap)
    rw [← hfront] at hcut''
    obtain ⟨ts', used, used', rest', hscans', htokens, rfl, rfl, hend⟩ :=
      ih (by simp [Nat.add_assoc]) hmid hcut''
    refine ⟨.ofPiece kind (returnedLexeme kind lexeme) piece' (byteLength front' + byteLength gap')
      :: ts', gap ++ piece ++ used, gap' ++ piece' ++ used', rest', ?_, .cons ?_ ?_, by simp, ?_, ?_⟩
    · rw [← hcut'.append_eq, ← List.append_assoc]
      refine .cons hgap' hreads' ?_
      simpa [Nat.add_assoc] using hscans'
    · refine ⟨rfl, by simp [Token.ofPiece], front ++ gap, piece ++ (used ++ rest), by simp, ?_, ?_⟩
      · simp [Token.pos, Token.ofPiece]
      · rw [← hfront]
        simp [Token.pos, Token.ofPiece]
    · simpa using htokens
    · rw [← hcut'.append_eq]
      simp
    · simpa using hend

/-- Returns mend no fault. -/
theorem reading_withReturns_fault {cs piece rest : List Char} {fault : ScanFault}
    (h : reading cs = .fault fault piece rest) :
    ∃ piece' rest', (∀ d ∈ (withReturns cs).head?, isSpacing d = false) ∧
      reading (withReturns cs) = .fault fault piece' rest' := by
  rcases reading_eq_fault h with ⟨rfl, back, rfl, hback⟩ | ⟨rfl, back, rfl, hback⟩
  · have hhead : (withReturns back).head? ≠ some '|' := by
      intro hbar
      exact head?_withReturns (P := (· ≠ '|')) (fun d hd hd' => hback (hd' ▸ hd)) (by decide) _ hbar rfl
    rw [withReturns_cons (by decide)]
    exact ⟨_, _, by simp [isSpacing], by rw [reading, if_neg hhead]⟩
  · rw [withReturns_cons (by decide), withReturns_cons (by decide)]
    have hreading : reading ('/' :: '*' :: withReturns back) =
        .fault .unterminatedComment ('/' :: '*' :: withReturns back) [] := by
      rw [reading, readBlockComment, splitComment?_withReturns, hback]
      rfl
    exact ⟨_, _, by simp [isSpacing], hreading⟩

/-- **The end of a scan, or its fault, where lines end with returns.** -/
theorem Scanner.Stops.withReturns {o : Nat} {cs passed : List Char}
    {ending : Except ScanError Token} (h : Stops o cs ending passed) {front front' cs' : List Char}
    (ho : o = byteLength front) (hcut : Cuts front cs front' cs') :
    ∃ ending' passed', Stops (byteLength front') cs' ending' passed' ∧
      ReturnedEnding (front ++ cs) ending ending' := by
  subst ho
  cases h with
  | eof hgap =>
    rw [← List.append_nil cs] at hcut
    obtain ⟨gap', hgap', rfl, hfront⟩ := hcut.spacing hgap (by simp)
    rw [withReturns_nil, List.append_nil]
    refine ⟨_, _, .eof hgap', .ok ⟨rfl, rfl, front ++ cs, [], by simp, ?_, ?_⟩⟩
    · simp [Token.pos, endToken]
    · rw [← hfront]
      simp [Token.pos, endToken]
  | @fault gap cs piece rest fault hgap hhead hreading =>
    obtain ⟨gap', hgap', rfl, hfront⟩ := hcut.spacing hgap hhead
    obtain ⟨piece', rest', hhead', hreading'⟩ := reading_withReturns_fault hreading
    refine ⟨_, _, .fault hgap' hhead' hreading', .error rfl ⟨front ++ gap, cs, ?_, ?_, ?_⟩⟩
    · rw [List.append_assoc]
    · rw [byteLength_append]
    · rw [← hfront, byteLength_append]

/-- **The tokens of a text where lines end with returns.** -/
theorem scanText_withReturns {text : List Char} (h : '\r' ∉ text) :
    List.Forall₂ (Token.Returned text) (scanText text).tokens
        (scanText (withReturns text)).tokens ∧
      ReturnedEnding text (scanText text).ending (scanText (withReturns text)).ending := by
  obtain ⟨used, rest, passed, htext, hscans, hstops⟩ := scans_of_scanText text
  rw [← htext] at hscans
  have hstart : Cuts [] text (withReturns []) (withReturns text) := .same [] text
  obtain ⟨ts', used₁, used', rest', hscans', htokens, hused, hreturned, hcut⟩ :=
    hscans.withReturns (by rfl) h hstart
  obtain rfl : used₁ = used := List.append_cancel_right (hused.symm.trans htext)
  obtain ⟨ending', passed', hstops', hending⟩ := hstops.withReturns rfl hcut
  rw [hreturned] at hscans' ⊢
  rw [scanText_eq hscans' hstops']
  rw [show used₁ ++ rest = text from htext.symm] at hending
  exact ⟨htokens, hending⟩

end PackageDoc
