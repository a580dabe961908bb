/-
  Small letters stay small.

  Lowercasing replaces each character by its small form.  The table of small forms
  leads to letters that are not in the table themselves (`smallForms_sound`), so a
  text without a dotted capital I is settled once it has been lowercased: its
  characters are the ones that it had, or letters, and lowercasing it again changes
  nothing (`lowercase_settled`).  Only the dotted capital I brings a character into a
  text that is no letter, the dot above (`dot_mem_lowercase`).
-/
import PackageDoc.Text.Alphabetic
import PackageDoc.Text.LetterCase

namespace PackageDoc.Text

/-! ## The table of small forms -/

/-- The last code that a shift leads to. -/
def CodeShift.last (s : CodeShift) : Nat := s.target + (s.source.last - s.source.first)

/-- Whether the ranges hold all codes from `low` to `high`. -/
def covers (low high : Nat) : List CodeRange → Bool
  | [] => false
  | r :: rs => r.first.ble low && (high.ble r.last || covers low high rs)

/-- Whether a shift leads to no code of the stride: these lie before it, behind it
    or between the codes that it leads to. -/
def CodeShift.avoids (s : CodeShift) (t : CodeStride) : Bool :=
  s.last.blt t.first || t.last.blt s.target ||
    ((s.source.step.beq 2 || s.target.beq s.last) && (t.step.beq 2 || t.first.beq t.last) &&
      ((s.target + t.first) % 2).beq 1)

/-- Whether a shift leads to codes of characters other than the dotted capital I. -/
def CodeShift.isPlain (s : CodeShift) : Bool :=
  (s.last.blt 0x130 || Nat.blt 0x130 s.target) &&
    (s.last.blt 0xD800 || (Nat.blt 0xDFFF s.target && s.last.blt 0x110000))

theorem covers_smallForms :
    (smallForms.all fun s => covers s.target s.last alphabeticCodes) = true := by
  decide +kernel

theorem avoids_smallForms :
    (smallForms.all fun s => smallForms.all fun t => s.avoids t.source) = true := by
  decide +kernel

theorem isPlain_smallForms : smallForms.all CodeShift.isPlain = true := by
  decide +kernel

theorem inRanges_of_covers {low high n : Nat} {rs : List CodeRange}
    (h : covers low high rs = true) (hlow : low ≤ n) (hhigh : n ≤ high) :
    inRanges n rs = true := by
  induction rs with
  | nil => cases h
  | cons r rs ih =>
    simp only [covers, Bool.and_eq_true, Bool.or_eq_true, Nat.ble_eq] at h
    simp only [inRanges, Bool.and_eq_true, Bool.or_eq_true, decide_eq_true_eq]
    refine ⟨by omega, ?_⟩
    rcases h.2 with hlast | hmore
    · exact .inl (by omega)
    · exact .inr (ih hmore)

/-- A shift that holds a code leads to one of its codes. -/
theorem CodeShift.target_of_contains {s : CodeShift} {n : Nat} (h : s.source.contains n = true) :
    s.target + (n - s.source.first) ≤ s.last ∧
      (s.source.step = 2 → (n - s.source.first) % 2 = 0) := by
  simp only [CodeStride.contains, Bool.and_eq_true, decide_eq_true_eq, beq_iff_eq] at h
  refine ⟨by unfold CodeShift.last; omega, fun hstep => ?_⟩
  rw [hstep] at h
  exact h.2

theorem CodeShift.not_contains_of_avoids {s : CodeShift} {t : CodeStride} {n : Nat}
    (h : s.avoids t = true) (hn : s.source.contains n = true) :
    t.contains (s.target + (n - s.source.first)) = false := by
  obtain ⟨hlast, hstep⟩ := s.target_of_contains hn
  rw [Bool.eq_false_iff]
  intro ht
  simp only [CodeStride.contains, Bool.and_eq_true, decide_eq_true_eq, beq_iff_eq] at ht
  obtain ⟨⟨hfirst, hlast'⟩, hmod⟩ := ht
  simp only [CodeShift.avoids, Bool.or_eq_true, Bool.and_eq_true, Nat.blt_eq, Nat.beq_eq] at h
  rcases h with (h | h) | ⟨⟨hs, ht⟩, hparity⟩
  · omega
  · omega
  · -- both codes keep the parity of the first ones
    have hsource : (n - s.source.first) % 2 = 0 := by
      rcases hs with hs | hs
      · exact hstep hs
      · omega
    have htarget : (s.target + (n - s.source.first) - t.first) % 2 = 0 := by
      rcases ht with ht | ht
      · rw [ht] at hmod
        exact hmod
      · omega
    omega

theorem shifted?_eq_some {n m : Nat} {ss : List CodeShift} (h : shifted? n ss = some m) :
    ∃ s ∈ ss, s.source.contains n = true ∧ m = s.target + (n - s.source.first) := by
  obtain ⟨s, hs, rfl⟩ := Option.map_eq_some_iff.1 h
  have hcontains := List.find?_some hs
  exact ⟨s, List.mem_of_find?_eq_some hs, hcontains, rfl⟩

/-- **Small forms are small**: the table leads to letters that it does not map. -/
theorem smallForms_sound {n m : Nat} (h : shifted? n smallForms = some m) :
    inRanges m alphabeticCodes = true ∧ shifted? m smallForms = none ∧ m ≠ 0x130 ∧
      m.isValidChar := by
  obtain ⟨s, hs, hn, rfl⟩ := shifted?_eq_some h
  obtain ⟨hlast, -⟩ := s.target_of_contains hn
  have hlow : s.target ≤ s.target + (n - s.source.first) := Nat.le_add_right _ _
  have hplain := List.all_eq_true.1 isPlain_smallForms s hs
  simp only [CodeShift.isPlain, Bool.and_eq_true, Bool.or_eq_true, Nat.blt_eq] at hplain
  refine ⟨?_, ?_, by omega, ?_⟩
  · exact inRanges_of_covers (List.all_eq_true.1 covers_smallForms s hs) hlow hlast
  · rw [shifted?, Option.map_eq_none_iff, List.find?_eq_none]
    intro t ht
    have havoids := List.all_eq_true.1 (List.all_eq_true.1 avoids_smallForms s hs) t ht
    simp [CodeShift.not_contains_of_avoids havoids hn]
  · unfold Nat.isValidChar
    omega

/-! ## Settled texts -/

/-- A character that lowercasing leaves alone. -/
structure Settled (c : Char) : Prop where
  not_dotted : c ≠ '\u0130'
  not_sigma : c ≠ '\u03A3'
  unmapped : shifted? c.toNat smallForms = none

theorem Settled.smallForm_eq {c : Char} (h : Settled c) : smallForm c = [c] := by
  rw [smallForm, if_neg h.not_dotted, h.unmapped]
  rfl

/-- A small form is settled; it is the character itself or a letter. -/
theorem settled_of_mem_smallForm {c d : Char} (hc : c ≠ '\u0130') (h : d ∈ smallForm c) :
    Settled d ∧ (d = c ∨ isAlphabetic d = true) := by
  have hsigma : shifted? '\u03A3'.toNat smallForms ≠ none := by decide +kernel
  rw [smallForm, if_neg hc, List.mem_singleton] at h
  cases hm : shifted? c.toNat smallForms with
  | none =>
    rw [hm] at h
    obtain rfl : d = c := h
    exact ⟨⟨hc, fun heq => hsigma (heq ▸ hm), hm⟩, .inl rfl⟩
  | some m =>
    rw [hm] at h
    obtain ⟨hletter, hunmapped, hdotted, hvalid⟩ := smallForms_sound hm
    have hd : d.toNat = m := by
      rw [h, Option.map_some, Option.getD_some, Char.ofNat, dif_pos hvalid]
      rfl
    refine ⟨⟨fun heq => hdotted (by rw [← hd, heq]; rfl), fun heq => hsigma ?_, ?_⟩, .inr ?_⟩
    · rw [← heq, hd]
      exact hunmapped
    · rw [hd]
      exact hunmapped
    · rw [isAlphabetic, hd]
      exact hletter

/-- Where the characters of a lowercased text come from. -/
theorem mem_lowercaseAfter {before cs : List Char} {d : Char} (h : d ∈ lowercaseAfter before cs) :
    ∃ c ∈ cs, d ∈ smallForm c ∨ c = '\u03A3' ∧ (d = '\u03C2' ∨ d = '\u03C3') := by
  induction cs generalizing before with
  | nil => cases h
  | cons c cs ih =>
    rw [lowercaseAfter, List.mem_append] at h
    rcases h with h | h
    · refine ⟨c, by simp, ?_⟩
      by_cases hc : c = '\u03A3'
      · rw [if_pos hc] at h
        split at h
        · exact .inr ⟨hc, .inl (List.mem_singleton.1 h)⟩
        · exact .inr ⟨hc, .inr (List.mem_singleton.1 h)⟩
      · rw [if_neg hc] at h
        exact .inl h
    · obtain ⟨c', hc', hd⟩ := ih h
      exact ⟨c', by simp [hc'], hd⟩

/-- Without a dotted capital I, a lowercased text is settled, and its characters are
    those that it had, or letters. -/
theorem settled_of_mem_lowercase {cs : List Char} (hcs : '\u0130' ∉ cs) {d : Char}
    (h : d ∈ lowercase cs) : Settled d ∧ (d ∈ cs ∨ isAlphabetic d = true) := by
  obtain ⟨c, hc, hd | ⟨-, hd⟩⟩ := mem_lowercaseAfter h
  · have hdotted : c ≠ '\u0130' := by
      rintro rfl
      exact hcs hc
    obtain ⟨hsettled, hchar⟩ := settled_of_mem_smallForm hdotted hd
    refine ⟨hsettled, hchar.imp_left ?_⟩
    rintro rfl
    exact hc
  · rcases hd with rfl | rfl
    · exact ⟨⟨by decide, by decide, by decide +kernel⟩, .inr (by decide +kernel)⟩
    · exact ⟨⟨by decide, by decide, by decide +kernel⟩, .inr (by decide +kernel)⟩

/-- **Lowercasing settles**: a settled text is not changed. -/
theorem lowercase_settled {cs : List Char} (h : ∀ c ∈ cs, Settled c) : lowercase cs = cs := by
  suffices hafter : ∀ before, lowercaseAfter before cs = cs from hafter []
  induction cs with
  | nil => exact fun _ => rfl
  | cons c cs ih =>
    intro before
    have hc := h c (by simp)
    rw [lowercaseAfter, if_neg hc.not_sigma, hc.smallForm_eq, ih fun d hd => h d (by simp [hd])]
    rfl

/-! ## The dotted capital I -/

theorem not_dotted_of_mem_lowercase {cs : List Char} {d : Char} (h : d ∈ lowercase cs) :
    d ≠ '\u0130' := by
  obtain ⟨c, -, hd | ⟨-, rfl | rfl⟩⟩ := mem_lowercaseAfter h
  · by_cases hc : c = '\u0130'
    · rw [smallForm, if_pos hc] at hd
      rintro rfl
      simp at hd
    · exact (settled_of_mem_smallForm hc hd).1.not_dotted
  · decide
  · decide

theorem dot_mem_lowercase {cs : List Char} (h : '\u0130' ∈ cs) : '\u0307' ∈ lowercase cs := by
  suffices hafter : ∀ before, '\u0307' ∈ lowercaseAfter before cs from hafter []
  induction cs with
  | nil => cases h
  | cons c cs ih =>
    intro before
    rw [lowercaseAfter, List.mem_append]
    rcases List.mem_cons.1 h with rfl | h
    · rw [if_neg (by decide)]
      exact .inl (by decide)
    · exact .inr (ih h _)

/-! ## Lengths and first characters -/

theorem length_le_lowercase (cs : List Char) : cs.length ≤ (lowercase cs).length := by
  suffices hafter : ∀ before, cs.length ≤ (lowercaseAfter before cs).length from hafter []
  induction cs with
  | nil => exact fun _ => Nat.le_refl _
  | cons c cs ih =>
    intro before
    have hmore := ih (c :: before)
    have hsmall : 1 ≤ (smallForm c).length := by
      unfold smallForm
      split <;> simp
    rw [lowercaseAfter, List.length_append, List.length_cons]
    split
    · split <;> simp <;> omega
    · omega

/-- A lowercased text starts with the character that it started with, or with a
    letter. -/
theorem head_lowercase (c : Char) (cs : List Char) :
    ∃ d ds, lowercase (c :: cs) = d :: ds ∧ (d = c ∨ isAlphabetic d = true) := by
  rw [lowercase, lowercaseAfter]
  split
  · split
    · exact ⟨_, _, rfl, .inr (by decide +kernel)⟩
    · exact ⟨_, _, rfl, .inr (by decide +kernel)⟩
  · by_cases hc : c = '\u0130'
    · rw [smallForm, if_pos hc]
      exact ⟨_, _, rfl, .inr (by decide +kernel)⟩
    · have hmem := fun d (hd : d ∈ smallForm c) => (settled_of_mem_smallForm hc hd).2
      rw [smallForm, if_neg hc] at hmem ⊢
      exact ⟨_, _, rfl, hmem _ (List.mem_singleton.2 rfl)⟩

end PackageDoc.Text
