/-
  The letters that lowercasing changes.

  These are the capital letters and the titlecase letters, such as `ǅ`, of which
  only the first half is a capital (`isUppercase_or_isTitlecase`).  A titlecase
  letter is no capital letter and is always changed (`isTitlecase_sound`), so a text
  without capital letters is its own lowercase form iff it has no titlecase letter
  (`lowercase_eq_self_iff`).
-/
import PackageDoc.Proofs.Text.LetterCase

namespace PackageDoc.Text

/-! ## The codes of a table -/

/-- The codes of a range. -/
def CodeRange.codes (r : CodeRange) : List Nat := List.range' r.first (r.last + 1 - r.first)

/-- The codes of a stride. -/
def CodeStride.codes (s : CodeStride) : List Nat :=
  List.range' s.first ((s.last - s.first) / s.step + 1) s.step

theorem CodeStride.mem_codes {s : CodeStride} {n : Nat} (h : s.contains n = true) :
    n ∈ s.codes := by
  simp only [contains, Bool.and_eq_true, decide_eq_true_eq, beq_iff_eq] at h
  obtain ⟨⟨hfirst, hlast⟩, hmod⟩ := h
  have hle : (n - s.first) / s.step ≤ (s.last - s.first) / s.step :=
    Nat.div_le_div_right (by omega)
  have hdiv := Nat.div_add_mod (n - s.first) s.step
  rw [codes, List.mem_range']
  exact ⟨(n - s.first) / s.step, by omega, by omega⟩

theorem exists_of_inRanges {n : Nat} {rs : List CodeRange} (h : inRanges n rs = true) :
    ∃ r ∈ rs, n ∈ r.codes := by
  induction rs with
  | nil => cases h
  | cons r rs ih =>
    simp only [inRanges, Bool.and_eq_true, Bool.or_eq_true, decide_eq_true_eq] at h
    rcases h.2 with hlast | hmore
    · exact ⟨r, by simp, by simp [CodeRange.codes]; omega⟩
    · obtain ⟨r', hr', hn⟩ := ih hmore
      exact ⟨r', by simp [hr'], hn⟩

/-! ## Titlecase letters -/

/-- The codes of the general category `Lt`. -/
def titlecaseCodes : List CodeRange := [
  ⟨0x1C5, 0x1C5⟩, ⟨0x1C8, 0x1C8⟩, ⟨0x1CB, 0x1CB⟩, ⟨0x1F2, 0x1F2⟩, ⟨0x1F88, 0x1F8F⟩,
  ⟨0x1F98, 0x1F9F⟩, ⟨0x1FA8, 0x1FAF⟩, ⟨0x1FBC, 0x1FBC⟩, ⟨0x1FCC, 0x1FCC⟩, ⟨0x1FFC, 0x1FFC⟩]

/-- Whether a character is a titlecase letter. -/
def isTitlecase (c : Char) : Bool := inRanges c.toNat titlecaseCodes

/-- The strides of capital letters that a stride can share codes with. -/
def CodeStride.capitals (s : CodeStride) : List CodeStride :=
  uppercaseCodes.filter fun t => t.first.ble s.last && s.first.ble t.last

theorem smallForms_capital :
    (smallForms.all fun s => s.source.codes.all fun n =>
      inStrides n s.source.capitals || inRanges n titlecaseCodes) = true := by
  decide +kernel

/-- No titlecase letter is a capital letter, and each has a small form that is no
    ASCII letter. -/
theorem titlecaseCodes_mapped :
    (titlecaseCodes.all fun r => r.codes.all fun n =>
      !inStrides n uppercaseCodes && ((shifted? n smallForms).any fun m => Nat.blt 0x7F m)) =
        true := by
  decide +kernel

/-- **Only capital and titlecase letters change.** -/
theorem isUppercase_or_isTitlecase {c : Char} (h : ¬ Settled c) :
    isUppercase c = true ∨ isTitlecase c = true := by
  cases hm : shifted? c.toNat smallForms with
  | some m =>
    obtain ⟨s, hs, hn, -⟩ := shifted?_eq_some hm
    have hall := List.all_eq_true.1 smallForms_capital s hs
    have hcode := List.all_eq_true.1 hall _ (CodeStride.mem_codes hn)
    rw [Bool.or_eq_true] at hcode
    refine hcode.imp_left fun hcapital => ?_
    obtain ⟨t, ht, hcontains⟩ := List.any_eq_true.1 hcapital
    exact List.any_eq_true.2 ⟨t, (List.mem_filter.1 ht).1, hcontains⟩
  | none =>
    left
    by_cases hdotted : c = '\u0130'
    · rw [hdotted]
      decide +kernel
    · by_cases hsigma : c = '\u03A3'
      · rw [hsigma]
        decide +kernel
      · exact absurd ⟨hdotted, hsigma, hm⟩ h

/-- A titlecase letter is no capital letter, but it has a small form, one character
    that is not ASCII. -/
theorem isTitlecase_sound {c : Char} (h : isTitlecase c = true) :
    isUppercase c = false ∧ c ≠ '\u0130' ∧ c ≠ '\u03A3' ∧
      ∃ m, shifted? c.toNat smallForms = some m ∧ 0x7F < m := by
  obtain ⟨r, hr, hn⟩ := exists_of_inRanges h
  have hmapped := List.all_eq_true.1 (List.all_eq_true.1 titlecaseCodes_mapped r hr) _ hn
  simp only [Bool.and_eq_true, Bool.not_eq_true', Option.any_eq_true_iff_get, Nat.blt_eq]
    at hmapped
  obtain ⟨hcapital, hsome, hm⟩ := hmapped
  refine ⟨hcapital, ?_, ?_, _, (Option.some_get hsome).symm, hm⟩
  · rintro rfl
    revert hcapital
    decide +kernel
  · rintro rfl
    revert hcapital
    decide +kernel

theorem not_ascii_of_isTitlecase {c : Char} (h : isTitlecase c = true) : 0x7F < c.toNat := by
  have hall : (titlecaseCodes.all fun r => Nat.blt 0x7F r.first) = true := by decide
  obtain ⟨r, hr, hn⟩ := exists_of_inRanges h
  have hfirst := List.all_eq_true.1 hall r hr
  simp only [Nat.blt_eq] at hfirst
  simp only [CodeRange.codes, List.mem_range'_1] at hn
  omega

/-! ## Texts without capital letters -/

theorem mem_lowercase_of_mem_smallForm {cs : List Char} {c d : Char} (hc : c ∈ cs)
    (hsigma : c ≠ '\u03A3') (hd : d ∈ smallForm c) : d ∈ lowercase cs := by
  suffices hafter : ∀ before, d ∈ lowercaseAfter before cs from hafter []
  induction cs with
  | nil => cases hc
  | cons e cs ih =>
    intro before
    rw [lowercaseAfter, List.mem_append]
    rcases List.mem_cons.1 hc with rfl | hc
    · rw [if_neg hsigma]
      exact .inl hd
    · exact .inr (ih hc _)

/-- Lowercasing a titlecase letter brings in a character that is not ASCII. -/
theorem exists_mem_lowercase_of_isTitlecase {cs : List Char} {c : Char} (hc : c ∈ cs)
    (h : isTitlecase c = true) : ∃ d ∈ lowercase cs, 0x7F < d.toNat := by
  obtain ⟨-, hdotted, hsigma, m, hm, hascii⟩ := isTitlecase_sound h
  obtain ⟨-, -, -, hvalid⟩ := smallForms_sound hm
  refine ⟨Char.ofNat m, mem_lowercase_of_mem_smallForm hc hsigma ?_, ?_⟩
  · rw [smallForm, if_neg hdotted, hm]
    exact List.mem_singleton.2 rfl
  · rw [Char.ofNat, dif_pos hvalid]
    exact hascii

theorem Settled.not_isTitlecase {c : Char} (h : Settled c) : isTitlecase c = false := by
  rw [Bool.eq_false_iff]
  intro htitle
  obtain ⟨-, -, -, m, hm, -⟩ := isTitlecase_sound htitle
  rw [h.unmapped] at hm
  cases hm

/-- **What lowercasing leaves alone**: a text without capital letters is its own
    lowercase form iff it holds no titlecase letter. -/
theorem lowercase_eq_self_iff {cs : List Char} (h : cs.any isUppercase = false) :
    lowercase cs = cs ↔ cs.any isTitlecase = false := by
  have hcapital : ∀ c ∈ cs, isUppercase c = false := by simpa using h
  have hdotted : '\u0130' ∉ cs := fun hmem => by
    have := hcapital _ hmem
    revert this
    decide +kernel
  constructor
  · intro hself
    simp only [List.any_eq_false, Bool.not_eq_true]
    intro c hc
    rw [← hself] at hc
    exact (settled_of_mem_lowercase hdotted hc).1.not_isTitlecase
  · intro htitle
    simp only [List.any_eq_false, Bool.not_eq_true] at htitle
    refine lowercase_settled fun c hc => ?_
    refine Classical.byContradiction fun hsettled => ?_
    rcases isUppercase_or_isTitlecase hsettled with hupper | hmixed
    · rw [hcapital c hc] at hupper
      cases hupper
    · rw [htitle c hc] at hmixed
      cases hmixed

end PackageDoc.Text
