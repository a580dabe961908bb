/-
  Package names.

  The name of a package is a word of the source, lowercased: its characters are
  those of a word, or the dot above that a dotted capital I leaves behind
  (`IsWordText`).  So it names an entry of a directory, never a place elsewhere
  (`isEntryName_pageName`).
-/
import PackageDoc.Proofs.Disk.Path
import PackageDoc.Proofs.Parser.Reassembly
import PackageDoc.Proofs.Token.Separation
import PackageDoc.Html.Page

namespace PackageDoc

open Text

/-! ## Words -/

/-- A text of the characters of words and of dots above. -/
def IsWordText (s : String) : Prop := ∀ c ∈ s.toList, isNameChar c = true ∨ c = '\u0307'

theorem isNameChar_or_dot_of_mem_lowercase {w : List Char} (hw : ∀ c ∈ w, isNameChar c = true)
    {d : Char} (h : d ∈ lowercase w) : isNameChar d = true ∨ d = '\u0307' := by
  obtain ⟨c, hc, hd | ⟨-, rfl | rfl⟩⟩ := mem_lowercaseAfter h
  · by_cases hdotted : c = '\u0130'
    · rw [smallForm, if_pos hdotted] at hd
      simp only [List.mem_cons, List.not_mem_nil, or_false] at hd
      rcases hd with rfl | rfl
      · exact .inl (by decide +kernel)
      · exact .inr rfl
    · rcases (settled_of_mem_smallForm hdotted hd).2 with rfl | hletter
      · exact .inl (hw d hc)
      · exact .inl (isNameChar_of_isAlphabetic hletter)
  · exact .inl (by decide +kernel)
  · exact .inl (by decide +kernel)

/-- The lexeme of a word has the characters of words. -/
theorem isWordText_of_reads {lexeme piece rest : List Char}
    (h : Reads .ident lexeme piece rest) : IsWordText (String.ofList lexeme) := by
  generalize hkind : TokenKind.ident = kind at h
  cases h <;> first | cases hkind | skip
  rename_i c cs hstart hcs _
  have hw : ∀ d ∈ c :: cs, isNameChar d = true :=
    List.forall_mem_cons.2 ⟨isNameChar_of_isNameStart hstart, hcs⟩
  intro d hd
  rw [String.toList_ofList, wordLexeme] at hd
  split at hd
  · exact isNameChar_or_dot_of_mem_lowercase hw hd
  · exact .inl (hw d hd)

/-! ## Names of packages -/

namespace Parser

variable {i : Input}

theorem isWordText_name (hi : i.Scanned) : Ensures i name fun x => IsWordText x.name := by
  refine (Ensures.name (by simp [hi.eof_kind])).weaken ?_
  rintro x ⟨t, ht, hkind, rfl⟩
  obtain ⟨rest, hscans, -⟩ := hi.scans
  obtain ⟨m, lexeme, piece, mid, -, hreads, heq⟩ := hscans.reads_of_mem (Input.Scanned.mem_raw ht)
  have hident : t.token.kind = .ident := hkind
  rw [hident] at hreads heq
  have hlexeme : t.lexeme = String.ofList lexeme := by
    rw [DocToken.lexeme, heq]
    rfl
  show IsWordText t.lexeme
  rw [hlexeme]
  exact isWordText_of_reads hreads

theorem isWordText_packageName (hi : i.Scanned) :
    Ensures i packageName fun x => IsWordText x.name := by
  refine .bind (isWordText_name hi) fun x hx => .bind .advance fun _ _ => .bind (.isAt _) fun _ _ => ?_
  refine .ite (fun _ => ?_) fun _ => .bind (.takeTo _) fun _ _ => .pure hx
  refine .bind (.bind .advance fun _ _ => isWordText_name hi) fun y hy => ?_
  exact .bind .advance fun _ _ => .bind (.takeTo _) fun _ _ => .pure hy

theorem isWordText_package? (hi : i.Small) (create : DocToken) :
    Ensures i (package? create) fun p? => ∀ p ∈ p?, IsWordText p.name.name := by
  refine .bind (.isAt _) fun _ _ => .ite (fun _ => ?_) fun _ => ?_
  · exact .bind ensures_packageBody fun _ _ => .pure (by simp)
  · refine .bind (isWordText_packageName hi.toScanned) fun x hx => .bind (ensures_items hi x) fun y _ => ?_
    refine .bind (.log _) fun _ _ => .pure fun p hp => ?_
    cases hp
    exact hx

end Parser

/-- The packages of a file have words as their names. -/
theorem isWordText_of_parse {file : String} {source : ByteArray} {f : SourceFile}
    (h : (parse file source).result = .ok f) : ∀ p ∈ f.packages, IsWordText p.name.name := by
  obtain ⟨text, rfl, hsize, -, hreturns⟩ := text_of_parse h
  have hi := Input.small_ofText file hsize
  exact (Parser.ensures_packages_of (Parser.isWordText_package? hi)).result (List.suffix_refl _)
    hreturns

/-- The page of a package is an entry of the directory that it is written to. -/
theorem isEntryName_pageName {name : String} (h : IsWordText name) :
    Path.IsEntryName (Html.pageName name) := by
  have hlist : (Html.pageName name).toList = name.toList ++ ".html".toList := by
    rw [Html.pageName, String.toList_append]
  constructor
  · intro hmem
    have hlength : 5 ≤ (Html.pageName name).toList.length := by simp [hlist]
    simp only [List.mem_cons, List.not_mem_nil, or_false] at hmem
    rcases hmem with heq | heq | heq <;> rw [heq] at hlength <;> exact absurd hlength (by decide)
  · intro hslash
    rw [hlist, List.mem_append] at hslash
    rcases hslash with hslash | hslash
    · rcases h '/' hslash with hchar | hdot
      · exact absurd hchar (by decide +kernel)
      · exact absurd hdot (by decide)
    · exact absurd hslash (by decide)

end PackageDoc
