/-
  Escaped text.

  Escaping writes each character by itself, so the text can be read back character
  by character: `readChar?` reads at the front of a text what `escapeChar` writes,
  and nothing else (`readChar?_eq_some_iff`), and `unescape?` reads all of it
  (`unescape?_eq_some_iff`).  No character of an escaped text ends a tag or the
  value of an attribute, and an ampersand starts one of five entities
  (`EntitiesOnly`).
-/
import PackageDoc.Html.Escape

namespace PackageDoc.Html

/-! ## Entities -/

/-- The characters that are written as entities. -/
def specials : List Char := ['&', '<', '>', '"', '\'']

/-- The entities that are written for them. -/
def entities : List (List Char) :=
  ["&amp;".toList, "&lt;".toList, "&gt;".toList, "&quot;".toList, "&#39;".toList]

/-- Every ampersand starts an entity. -/
def EntitiesOnly (cs : List Char) : Prop :=
  ∀ back, '&' :: back <:+ cs → ∃ e ∈ entities, e <+: '&' :: back

theorem escapeChar_of_not_special {c : Char} (h : c ∉ specials) : escapeChar c = [c] := by
  simp only [specials, List.mem_cons, List.not_mem_nil, or_false, not_or] at h
  simp [escapeChar, h]

theorem escapeChar_mem_entities {c : Char} (h : c ∈ specials) : escapeChar c ∈ entities := by
  simp only [specials, List.mem_cons, List.not_mem_nil, or_false] at h
  rcases h with rfl | rfl | rfl | rfl | rfl <;> decide

/-- Of the characters that mean something, only the ampersand is written. -/
theorem not_mem_escapeChar {c d : Char} (hd : d ∈ specials) (hamp : d ≠ '&') :
    d ∉ escapeChar c := by
  by_cases hc : c ∈ specials
  · have hall : ∀ e ∈ entities, ∀ d ∈ specials, d ≠ '&' → d ∉ e := by
      simp [entities, specials]
    exact hall _ (escapeChar_mem_entities hc) d hd hamp
  · rw [escapeChar_of_not_special hc, List.mem_singleton]
    rintro rfl
    exact hc hd

theorem escapeChar_ne_nil (c : Char) : escapeChar c ≠ [] := by
  by_cases hc : c ∈ specials
  · exact (by decide : ∀ e ∈ entities, e ≠ []) _ (escapeChar_mem_entities hc)
  · simp [escapeChar_of_not_special hc]

namespace EntitiesOnly

theorem nil : EntitiesOnly [] := by simp [EntitiesOnly]

theorem of_not_mem {cs : List Char} (h : '&' ∉ cs) : EntitiesOnly cs :=
  fun _ hback => absurd (hback.subset (by simp)) h

theorem append {cs ds : List Char} (hcs : EntitiesOnly cs) (hds : EntitiesOnly ds) :
    EntitiesOnly (cs ++ ds) := by
  rintro back ⟨front, hback⟩
  rcases List.append_eq_append_iff.1 hback with ⟨mid, hmid, hsplit⟩ | ⟨mid, -, hsplit⟩
  · cases mid with
    | nil => exact hds back ⟨[], by simpa using hsplit⟩
    | cons c mid =>
      obtain ⟨rfl, rfl⟩ := List.cons.inj hsplit
      obtain ⟨e, he, hprefix⟩ := hcs mid ⟨front, hmid.symm⟩
      exact ⟨e, he, hprefix.trans (List.prefix_append _ _)⟩
  · exact hds back ⟨mid, hsplit.symm⟩

theorem flatMap {α : Type} {f : α → List Char} {xs : List α}
    (h : ∀ x ∈ xs, EntitiesOnly (f x)) : EntitiesOnly (xs.flatMap f) := by
  induction xs with
  | nil => exact nil
  | cons x xs ih =>
    rw [List.flatMap_cons]
    exact append (h x (by simp)) (ih fun y hy => h y (by simp [hy]))

theorem escapeChar (c : Char) : EntitiesOnly (escapeChar c) := by
  by_cases hc : c ∈ specials
  · -- the only ampersand of an entity is the first character
    have hall : ∀ e ∈ entities, '&' :: e.tail = e ∧ '&' ∉ e.tail := by decide
    have hmem := escapeChar_mem_entities hc
    obtain ⟨hhead, htail⟩ := hall _ hmem
    intro back hback
    rw [← hhead, List.suffix_cons_iff] at hback
    rcases hback with hback | hback
    · exact ⟨_, hmem, (hback.trans hhead) ▸ List.prefix_refl _⟩
    · exact absurd (hback.subset List.mem_cons_self) htail
  · rw [escapeChar_of_not_special hc]
    refine of_not_mem ?_
    rw [List.mem_singleton]
    rintro rfl
    exact hc (by decide)

end EntitiesOnly

/-! ## Escaped texts -/

theorem toList_escape (s : String) : (escape s).toList = s.toList.flatMap escapeChar := by
  simp [escape]

theorem not_mem_escape {s : String} {d : Char} (hd : d ∈ specials) (hamp : d ≠ '&') :
    d ∉ (escape s).toList := by
  rw [toList_escape, List.mem_flatMap]
  rintro ⟨c, -, hmem⟩
  exact not_mem_escapeChar hd hamp hmem

theorem entitiesOnly_escape (s : String) : EntitiesOnly (escape s).toList := by
  rw [toList_escape]
  exact .flatMap fun c _ => .escapeChar c

/-! ## Reading back -/

/-- Reads the character at the front of an escaped text: an entity, or a character
    that needs none. -/
def readChar? : List Char → Option (Char × List Char)
  | '&' :: 'a' :: 'm' :: 'p' :: ';' :: cs => some ('&', cs)
  | '&' :: 'l' :: 't' :: ';' :: cs => some ('<', cs)
  | '&' :: 'g' :: 't' :: ';' :: cs => some ('>', cs)
  | '&' :: 'q' :: 'u' :: 'o' :: 't' :: ';' :: cs => some ('"', cs)
  | '&' :: '#' :: '3' :: '9' :: ';' :: cs => some ('\'', cs)
  | c :: cs => if c ∈ specials then none else some (c, cs)
  | [] => none

theorem readChar?_cons {c : Char} (h : c ∉ specials) (cs : List Char) :
    readChar? (c :: cs) = some (c, cs) := by
  have hamp : c ≠ '&' := by
    rintro rfl
    exact h (by decide)
  unfold readChar?
  split <;> simp_all

/-- **A character is read as it was written**, and nothing else is read. -/
theorem readChar?_eq_some_iff {cs rest : List Char} {c : Char} :
    readChar? cs = some (c, rest) ↔ cs = escapeChar c ++ rest := by
  constructor
  · intro h
    unfold readChar? at h
    split at h
    case h_6 d ds _ _ _ _ _ =>
      split at h
      · cases h
      · rename_i hd
        cases h
        rw [escapeChar_of_not_special hd]
        rfl
    all_goals cases h
    all_goals rfl
  · rintro rfl
    by_cases hc : c ∈ specials
    · simp only [specials, List.mem_cons, List.not_mem_nil, or_false] at hc
      rcases hc with rfl | rfl | rfl | rfl | rfl <;> rfl
    · rw [escapeChar_of_not_special hc]
      exact readChar?_cons hc rest

theorem length_of_readChar? {cs rest : List Char} {c : Char} (h : readChar? cs = some (c, rest)) :
    rest.length < cs.length := by
  rw [readChar?_eq_some_iff.1 h, List.length_append]
  have := List.length_pos_iff.2 (escapeChar_ne_nil c)
  omega

/-- Reads an escaped text. -/
def unescape? (cs : List Char) : Option (List Char) :=
  if cs.isEmpty then some []
  else
    match h : readChar? cs with
    | some (c, rest) =>
      have := length_of_readChar? h
      (unescape? rest).map (c :: ·)
    | none => none
termination_by cs.length

/-- **A text is read as it was escaped**, and nothing else is read. -/
theorem unescape?_eq_some_iff {cs s : List Char} :
    unescape? cs = some s ↔ cs = s.flatMap escapeChar := by
  constructor
  · intro h
    fun_induction unescape? cs generalizing s with
    | case1 cs hnil =>
      cases h
      simpa using hnil
    | case2 cs hne c rest hread hlt ih =>
      obtain ⟨s', hs', rfl⟩ := Option.map_eq_some_iff.1 h
      rw [List.flatMap_cons, ← ih hs']
      exact readChar?_eq_some_iff.1 hread
    | case3 => cases h
  · rintro rfl
    induction s with
    | nil => simp [unescape?]
    | cons c s ih =>
      rw [List.flatMap_cons, unescape?, if_neg (by simp [escapeChar_ne_nil])]
      split
      · rename_i d rest hread
        rw [readChar?_eq_some_iff.2 rfl] at hread
        cases hread
        rw [ih]
        rfl
      · rename_i hread
        rw [readChar?_eq_some_iff.2 rfl] at hread
        cases hread

end PackageDoc.Html
