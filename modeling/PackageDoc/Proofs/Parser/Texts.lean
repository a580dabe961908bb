/-
  Texts of a file that are scanned again.

  The types and the values of a file are texts that were put together from the tokens
  of their source (`Ident.BuiltFrom`).  A text that is scanned again has these tokens
  exactly if it tells them apart; a value as `1 - -1` becomes a number and a comment.

  Main statement: `parse_texts_separable`.
-/
import PackageDoc.Proofs.Parser.Reassembly
import PackageDoc.Proofs.Token.Separation

namespace PackageDoc

/-! ## The texts of a declaration -/

/-- The type and the default value of a field. -/
def Field.texts (f : Field) : List Ident := f.type?.toList ++ f.default?.toList

/-- The types and the default values of a list of fields. -/
def FieldList.texts (l : FieldList) : List Ident := l.fields.flatMap Field.texts

/-- The elements, bounds, fields and results of the definition of a type. -/
def TypeBody.texts : TypeBody → List Ident
  | .table element => [element]
  | .varray bound element => bound.toList ++ [element]
  | .record fields => fields.texts
  | .refCursor result => result.toList

/-- The types and the values of a declaration. -/
def Item.texts : Item → List Ident
  | .field f => f.texts
  | .subtype s => [s.base]
  | .routine r => r.params.toList.flatMap FieldList.texts ++ r.result.toList
  | .cursor c => c.params.toList.flatMap FieldList.texts ++ c.result.toList
  | .type t => t.body.texts

section
variable (source : ByteArray)

/-- The text was put together from these tokens, which are those of its source without
    the comments. -/
def Ident.BuiltFrom (x : Ident) (ts : List Token) : Prop :=
  (tokens? (source.extract x.span.start x.span.stop)).map (·.filter (·.kind ≠ .comment)) = some ts ∧
    tokensText ts = x.name

end

/-- The kinds and the lexemes that a text has when it is scanned. -/
def Ident.words? (x : Ident) : Option (List (TokenKind × String)) :=
  (tokens? x.name.toUTF8).map (·.map Token.word)

section
variable {source : ByteArray}

theorem Ident.Reassembled.builtFrom {x : Ident} (h : x.Reassembled source) :
    ∃ ts, x.BuiltFrom source ts := by
  obtain ⟨ts, hts, htext⟩ := h
  exact ⟨_, by rw [hts]; rfl, htext⟩

theorem Ident.BuiltFrom.words?_eq_iff {x : Ident} {ts : List Token} (h : x.BuiltFrom source ts)
    (hsize : x.name.toUTF8.size ≤ maxOffset) :
    x.words? = some (ts.map Token.word) ↔ Separable ts := by
  obtain ⟨hts, htext⟩ := h
  obtain ⟨us, hus, rfl⟩ := Option.map_eq_some_iff.1 hts
  rw [← htext] at hsize
  rw [words?, ← htext]
  refine tokens?_tokensText_iff (fun t ht => ?_) hsize
  obtain ⟨hmem, hk⟩ := List.mem_filter.1 ht
  exact isRead_of_tokens? hus hmem (by simpa using hk)

theorem Field.TextsReassembled.texts {f : Field} (h : f.TextsReassembled source) :
    ∀ x ∈ f.texts, x.Reassembled source := by
  intro x hx
  simp only [Field.texts, List.mem_append, Option.mem_toList] at hx
  exact hx.elim (h.1 x) (h.2 x)

theorem FieldList.Reassembled.texts {l : FieldList} (h : l.Reassembled source) :
    ∀ x ∈ l.texts, x.Reassembled source := by
  intro x hx
  obtain ⟨f, hf, hx⟩ := List.mem_flatMap.1 hx
  exact (h f hf).2.texts x hx

theorem TypeBody.Reassembled.texts {b : TypeBody} (h : b.Reassembled source) :
    ∀ x ∈ b.texts, x.Reassembled source ∨ x.Unclosed source := by
  intro x hx
  cases b with
  | table element =>
    rw [List.mem_singleton.1 hx]
    exact .inl h
  | varray bound element =>
    rcases List.mem_append.1 hx with hx | hx
    · exact h.1 x (Option.mem_toList.1 hx)
    · rw [List.mem_singleton.1 hx]
      exact .inl h.2
  | record fields => exact .inl (FieldList.Reassembled.texts h x hx)
  | refCursor result => exact .inl (h x (Option.mem_toList.1 hx))

/-- The types and the values of parameters and a result. -/
theorem reassembled_signature {params : Option FieldList} {result : Option Ident}
    (hparams : ∀ l ∈ params, l.Reassembled source) (hresult : ∀ x ∈ result, x.Reassembled source) :
    ∀ x ∈ params.toList.flatMap FieldList.texts ++ result.toList, x.Reassembled source := by
  intro x hx
  rcases List.mem_append.1 hx with hx | hx
  · obtain ⟨l, hl, hx⟩ := List.mem_flatMap.1 hx
    exact (hparams l (Option.mem_toList.1 hl)).texts x hx
  · exact hresult x (Option.mem_toList.1 hx)

theorem Item.Reassembled.texts {item : Item} (h : item.Reassembled source) :
    ∀ x ∈ item.texts, x.Reassembled source ∨ x.Unclosed source := by
  intro x hx
  cases item with
  | field f => exact .inl (h.2.texts x hx)
  | subtype s =>
    rw [List.mem_singleton.1 hx]
    exact .inl h.2
  | routine r => exact .inl (reassembled_signature h.2.1 h.2.2 x hx)
  | cursor c => exact .inl (reassembled_signature h.2.1 h.2.2.1 x hx)
  | type t => exact h.2.texts x hx

end

/-! ## Files -/

/-- **Texts that are scanned again**: in a file that is parsed, every type and every
    value was put together from the tokens of its source, but for the bound of an array
    that is not closed.  Its text, if it is below four gigabytes, has these tokens
    exactly if it tells them apart. -/
theorem parse_texts_separable {file : String} {source : ByteArray} {f : SourceFile}
    (h : (parse file source).result = .ok f) :
    ∀ p ∈ f.packages, ∀ item ∈ p.items, ∀ x ∈ item.texts,
      ((∃ ts, x.BuiltFrom source ts) ∨ x.Unclosed source) ∧
        ∀ ts, x.BuiltFrom source ts → x.name.toUTF8.size ≤ maxOffset →
          (x.words? = some (ts.map Token.word) ↔ Separable ts) := by
  obtain ⟨text, rfl, hsize, hfault, hreturns⟩ := text_of_parse h
  have hi := Input.small_ofText file hsize
  obtain ⟨-, hpackages⟩ := Parser.ensures_packages hi _ _ _ (List.suffix_refl _) hreturns
  intro p hp item hitem x hx
  refine ⟨?_, fun ts hts hsmall => hts.words?_eq_iff hsmall⟩
  have hreassembled := (hpackages hfault p hp).2 item hitem
  exact (hreassembled.texts x hx).imp_left (·.builtFrom)

/-- A source with a type whose tokens are told apart and a value whose tokens are
    not. -/
def minusSource : ByteArray :=
  "create package p is n number ( 3 /* digits */ ) not null := 1 - -1; end;".toUTF8

/-- The type in `minusSource`. -/
def minusType : Ident := ⟨"number(3) not null", 22, 56⟩

/-- The tokens of the type in `minusSource`. -/
def minusTypeTokens : List Token :=
  [⟨.ident, "number", 0, 6⟩, ⟨.op .openParen, "(", 7, 8⟩, ⟨.number, "3", 9, 10⟩,
    ⟨.op .closeParen, ")", 24, 25⟩, ⟨.keyword .not, "not", 26, 29⟩,
    ⟨.keyword .null, "null", 30, 34⟩]

/-- The value in `minusSource`. -/
def minusValue : Ident := ⟨"1--1", 60, 66⟩

/-- The tokens of the value in `minusSource`. -/
def minusValueTokens : List Token :=
  [⟨.number, "1", 0, 1⟩, ⟨.op .minus, "-", 2, 3⟩, ⟨.op .minus, "-", 4, 5⟩, ⟨.number, "1", 5, 6⟩]

theorem texts_minusSource :
    ∃ f, (parse "a.pks" minusSource).result = .ok f ∧ ∃ p ∈ f.packages, ∃ item ∈ p.items,
      item.texts = [minusType, minusValue] := by
  have hparse : (parse "a.pks" minusSource).result.toOption.map
      (fun f => f.packages.map fun p => p.items.map Item.texts) =
        some [[[minusType, minusValue]]] := by
    decide +kernel
  obtain ⟨f, hresult, hpackages⟩ := exists_ok_of_toOption hparse
  obtain ⟨p, hp, hitems⟩ := List.map_eq_singleton_iff.1 hpackages
  obtain ⟨item, hitem, htexts⟩ := List.map_eq_singleton_iff.1 hitems
  exact ⟨f, hresult, p, by simp [hp], item, by simp [hitem], htexts⟩

theorem parse_texts_separable_type :
    ∃ f, (parse "a.pks" minusSource).result = .ok f ∧ ∃ p ∈ f.packages, ∃ item ∈ p.items,
      minusType ∈ item.texts ∧ minusType.BuiltFrom minusSource minusTypeTokens ∧
        Separable minusTypeTokens ∧
        minusType.words? = some (minusTypeTokens.map Token.word) := by
  obtain ⟨f, hparse, p, hp, item, hitem, htexts⟩ := texts_minusSource
  have hmem : minusType ∈ item.texts := by simp [htexts]
  have hbuilt : minusType.BuiltFrom minusSource minusTypeTokens :=
    ⟨by decide +kernel, by decide +kernel⟩
  have hseparable : Separable minusTypeTokens := by decide +kernel
  exact ⟨f, hparse, p, hp, item, hitem, hmem, hbuilt, hseparable,
    ((parse_texts_separable hparse p hp item hitem _ hmem).2 _ hbuilt (by decide +kernel)).2
      hseparable⟩

/-- A value that becomes a number and a comment. -/
theorem texts_fused_value :
    ∃ f, (parse "a.pks" minusSource).result = .ok f ∧ ∃ p ∈ f.packages, ∃ item ∈ p.items,
      minusValue ∈ item.texts ∧ minusValue.BuiltFrom minusSource minusValueTokens ∧
        (∀ t ∈ minusValueTokens, t.kind ≠ .string) ∧
        minusValue.words? = some [(.number, "1"), (.comment, "--1")] ∧
        minusValue.words? ≠ some (minusValueTokens.map Token.word) := by
  obtain ⟨f, hparse, p, hp, item, hitem, htexts⟩ := texts_minusSource
  have hmem : minusValue ∈ item.texts := by simp [htexts]
  have hwords : minusValue.words? = some [(.number, "1"), (.comment, "--1")] := by decide +kernel
  refine ⟨f, hparse, p, hp, item, hitem, hmem, ⟨by decide +kernel, by decide +kernel⟩,
    by decide, hwords, ?_⟩
  rw [hwords]
  decide

end PackageDoc
