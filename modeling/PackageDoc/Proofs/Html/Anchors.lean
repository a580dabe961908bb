/-
  Anchors and how they collide.

  The anchor of a declaration is its base, which from the second declaration with
  this base on has the number of the declaration behind it (`numberedAnchor`).  No
  number makes two anchors of one base alike, and anchors with numbers differ if
  their bases do; only a base that reads like another one with a number brings two
  declarations to one anchor (`nodup_anchors_iff`).  A base without a dash does not
  (`nodup_anchors`).
-/
import PackageDoc.Html.Page

namespace PackageDoc.Html

/-! ## Numbers behind a base -/

/-- The anchor of the declaration that comes `k`-th among those with its base. -/
def numberedAnchor (base : String) (k : Nat) : String :=
  if k ≤ 1 then base else base ++ "-" ++ toString k

theorem anchor_eq (taken : List String) (base : String) :
    anchor taken base = numberedAnchor base (taken.count base + 1) := by
  unfold anchor numberedAnchor
  split
  · rename_i h
    simp [h]
  · rename_i n h
    simp [h]

theorem numberedAnchor_one (base : String) : numberedAnchor base 1 = base := if_pos (Nat.le_refl 1)

theorem numberedAnchor_of_lt {k : Nat} (h : 1 < k) (base : String) :
    numberedAnchor base k = base ++ "-" ++ toString k := if_neg (by omega)

theorem isDigit_of_mem_toString {n : Nat} {c : Char} (h : c ∈ (toString n).toList) :
    c.isDigit = true := by
  rw [Nat.toString_eq_repr, Nat.toList_repr] at h
  exact Nat.isDigit_of_mem_toDigits (by decide) (by decide) h

/-- The number behind the last dash and what is in front of it can be told apart. -/
theorem append_toString_inj {a b : String} {m n : Nat}
    (h : a ++ "-" ++ toString m = b ++ "-" ++ toString n) : a = b ∧ m = n := by
  have hreverse : ∀ (s : String) (k : Nat), (s ++ "-" ++ toString k).toList.reverse =
      (toString k).toList.reverse ++ '-' :: s.toList.reverse := by simp
  have hdigits : ∀ k : Nat, ∀ c ∈ (toString k).toList.reverse, Char.isDigit c = true :=
    fun k c hc => isDigit_of_mem_toString (List.mem_reverse.1 hc)
  have hsplit : ∀ (s : String) (k : Nat),
      (s ++ "-" ++ toString k).toList.reverse.takeWhile Char.isDigit =
        (toString k).toList.reverse := by
    intro s k
    rw [hreverse, List.takeWhile_append_of_pos (hdigits k), List.takeWhile_cons_of_neg (by decide),
      List.append_nil]
  have hnumber : (toString m).toList = (toString n).toList := by
    have heq := hsplit a m
    rw [h, hsplit b n] at heq
    exact (List.reverse_inj.1 heq).symm
  have hmn : m = n := by
    rw [Nat.toString_eq_repr, Nat.toString_eq_repr, Nat.toList_repr, Nat.toList_repr] at hnumber
    have heq := congrArg (Nat.ofDigitChars 10 · 0) hnumber
    simpa only [Nat.ofDigitChars_toDigits (b := 10) (by decide) (by decide)] using heq
  subst hmn
  exact ⟨(String.append_left_inj "-").1 ((String.append_left_inj _).1 h), rfl⟩

theorem ne_append_toString (base : String) (n : Nat) : base ≠ base ++ "-" ++ toString n := by
  intro h
  have hlength := congrArg String.length h
  simp only [String.length_append] at hlength
  have hdash : "-".length = 1 := rfl
  omega

theorem numberedAnchor_injective {base : String} {m n : Nat} (hm : 0 < m) (hn : 0 < n)
    (h : numberedAnchor base m = numberedAnchor base n) : m = n := by
  unfold numberedAnchor at h
  split at h <;> split at h
  · omega
  · exact absurd h (ne_append_toString _ _)
  · exact absurd h.symm (ne_append_toString _ _)
  · exact (append_toString_inj h).2

/-! ## The anchors of some declarations -/

/-- The anchors of declarations with these bases, behind others with the bases
    `before`. -/
def anchorsAfter (before : List String) : List String → List String
  | [] => []
  | b :: bs => numberedAnchor b (before.count b + 1) :: anchorsAfter (b :: before) bs

/-- The anchors of declarations with these bases. -/
def anchors (bases : List String) : List String := anchorsAfter [] bases

theorem length_anchorsAfter (before bs : List String) :
    (anchorsAfter before bs).length = bs.length := by
  induction bs generalizing before with
  | nil => rfl
  | cons b bs ih => simp [anchorsAfter, ih]

theorem length_anchors (bs : List String) : (anchors bs).length = bs.length :=
  length_anchorsAfter [] bs

theorem anchorsAfter_congr {before before' : List String}
    (h : ∀ b, before.count b = before'.count b) (bs : List String) :
    anchorsAfter before bs = anchorsAfter before' bs := by
  induction bs generalizing before before' with
  | nil => rfl
  | cons b bs ih =>
    rw [anchorsAfter, anchorsAfter, h b]
    exact congrArg _ (ih fun c => by simp only [List.count_cons, h c])

theorem anchorsAfter_append (before bs cs : List String) :
    anchorsAfter before (bs ++ cs) = anchorsAfter before bs ++ anchorsAfter (bs ++ before) cs := by
  induction bs generalizing before with
  | nil => rfl
  | cons b bs ih =>
    rw [List.cons_append, anchorsAfter, anchorsAfter, ih, List.cons_append]
    congr 2
    refine anchorsAfter_congr (fun c => ?_) cs
    simp only [List.cons_append, List.count_cons, List.count_append]
    omega

theorem getElem_anchorsAfter (before : List String) {bs : List String} {i : Nat}
    (hi : i < bs.length) (hi' : i < (anchorsAfter before bs).length) :
    (anchorsAfter before bs)[i] =
      numberedAnchor bs[i] (before.count bs[i] + (bs.take i).count bs[i] + 1) := by
  induction bs generalizing before i with
  | nil => simp at hi
  | cons b bs ih =>
    cases i with
    | zero => simp [anchorsAfter]
    | succ i =>
      have hlt : i < bs.length := by simpa using hi
      have hlt' : i < (anchorsAfter (b :: before) bs).length := by rwa [length_anchorsAfter]
      simp only [anchorsAfter, List.getElem_cons_succ, ih (b :: before) hlt hlt',
        List.take_succ_cons, List.count_cons]
      congr 1
      omega

/-- A base comes with every number up to the number of declarations that have it. -/
theorem exists_count_take (b : String) {k : Nat} {bs : List String} (hk : k < bs.count b) :
    ∃ (i : Nat) (hi : i < bs.length), bs[i] = b ∧ (bs.take i).count b = k := by
  induction bs generalizing k with
  | nil => simp at hk
  | cons c bs ih =>
    by_cases hc : c = b
    · cases k with
      | zero => exact ⟨0, by simp, hc, rfl⟩
      | succ k =>
        obtain ⟨i, hi, hget, hcount⟩ := ih (k := k) (by simpa [hc] using hk)
        exact ⟨i + 1, by simpa using hi, hget, by simp [hc, hcount]⟩
    · obtain ⟨i, hi, hget, hcount⟩ := ih (k := k) (by simpa [List.count_cons, hc] using hk)
      exact ⟨i + 1, by simpa using hi, hget, by simp [hc, hcount]⟩

theorem count_take_lt {b : String} {bs : List String} {i : Nat} (hi : i < bs.length)
    (hget : bs[i] = b) {j : Nat} (hj : i < j) : (bs.take i).count b < (bs.take j).count b := by
  have hsucc : (bs.take (i + 1)).count b = (bs.take i).count b + 1 := by
    rw [List.take_succ_eq_append_getElem hi, List.count_append, hget]
    simp
  have hle : (bs.take (i + 1)).count b ≤ (bs.take j).count b :=
    (List.take_prefix_take_left (show i + 1 ≤ j by omega)).sublist.count_le b
  omega

/-- Two of the declarations, by what is in front of them. -/
theorem getElem_anchors {bs : List String} {i : Nat} (hi : i < bs.length)
    (hi' : i < (anchors bs).length) :
    (anchors bs)[i] = numberedAnchor bs[i] ((bs.take i).count bs[i] + 1) := by
  have hget := getElem_anchorsAfter [] hi hi'
  rwa [List.count_nil, Nat.zero_add] at hget

theorem count_take_getElem_lt {bs : List String} {i : Nat} (hi : i < bs.length) :
    (bs.take i).count bs[i] < bs.count bs[i] := by
  have hlt := count_take_lt hi rfl hi
  rwa [List.take_length] at hlt

theorem mem_anchors_iff {bs : List String} {a : String} :
    a ∈ anchors bs ↔ ∃ b ∈ bs, ∃ k, 1 ≤ k ∧ k ≤ bs.count b ∧ a = numberedAnchor b k := by
  have hlength := length_anchors bs
  constructor
  · intro h
    obtain ⟨i, hi', rfl⟩ := List.mem_iff_getElem.1 h
    have hi : i < bs.length := hlength ▸ hi'
    refine ⟨bs[i], List.getElem_mem hi, _, ?_, ?_, getElem_anchors hi hi'⟩
    · omega
    · exact count_take_getElem_lt hi
  · rintro ⟨b, -, k, hk, hcount, rfl⟩
    have hpred : k - 1 < bs.count b := by omega
    obtain ⟨i, hi, hget, hcounti⟩ := exists_count_take b hpred
    have hi' : i < (anchors bs).length := hlength ▸ hi
    refine List.mem_iff_getElem.2 ⟨i, hi', ?_⟩
    rw [getElem_anchors hi hi', hget, hcounti, Nat.sub_add_cancel hk]

/-- **Anchors collide only with numbers**: they differ from each other if and only
    if no base reads like another one with the number of one of its declarations. -/
theorem nodup_anchors_iff {bs : List String} :
    (anchors bs).Nodup ↔
      ∀ b ∈ bs, ∀ b' ∈ bs, ∀ k, 2 ≤ k → k ≤ bs.count b' → b ≠ b' ++ "-" ++ toString k := by
  have hlength := length_anchors bs
  constructor
  · intro h b hb b' hb' k hk hcount heq
    obtain ⟨i, hi, hgeti, hcounti⟩ := exists_count_take b (List.count_pos_iff.2 hb)
    have hpred : k - 1 < bs.count b' := by omega
    obtain ⟨j, hj, hgetj, hcountj⟩ := exists_count_take b' hpred
    have hi' : i < (anchors bs).length := hlength ▸ hi
    have hj' : j < (anchors bs).length := hlength ▸ hj
    have hanchors : (anchors bs)[i] = (anchors bs)[j] := by
      rw [getElem_anchors hi hi', getElem_anchors hj hj']
      rw [hgeti, hcounti, hgetj, hcountj, numberedAnchor_one, numberedAnchor_of_lt (by omega), heq,
        Nat.sub_add_cancel (by omega)]
    have hij : i = j := (List.getElem_inj h).1 hanchors
    subst hij
    exact ne_append_toString b' k (by rw [← heq, ← hgeti, ← hgetj])
  · intro h
    rw [List.nodup_iff_pairwise_ne, List.pairwise_iff_getElem]
    intro i j hi' hj' hij heq
    have hi : i < bs.length := hlength ▸ hi'
    have hj : j < bs.length := hlength ▸ hj'
    rw [getElem_anchors hi hi', getElem_anchors hj hj'] at heq
    by_cases hbase : bs[i] = bs[j]
    · have hlt := count_take_lt hi hbase hij
      rw [hbase] at heq
      have := numberedAnchor_injective (by omega) (by omega) heq
      omega
    · have hcounti := count_take_getElem_lt hi
      have hcountj := count_take_getElem_lt hj
      have hmemi : bs[i] ∈ bs := List.getElem_mem hi
      have hmemj : bs[j] ∈ bs := List.getElem_mem hj
      unfold numberedAnchor at heq
      split at heq <;> split at heq
      · exact hbase heq
      · exact h _ hmemi _ hmemj _ (by omega) hcountj heq
      · exact h _ hmemj _ hmemi _ (by omega) hcounti heq.symm
      · exact hbase (append_toString_inj heq).1

theorem nodup_anchors {bs : List String} (h : ∀ b ∈ bs, '-' ∉ b.toList) : (anchors bs).Nodup := by
  refine nodup_anchors_iff.2 fun b hb b' _ k _ _ heq => h b hb ?_
  rw [heq]
  simp

/-! ## Entries -/

/-- An entry shows what its declaration has to show. -/
theorem entries_toSummary (taken : List String) (ss : List Summary) :
    (entries taken ss).map Entry.toSummary = ss := by
  induction ss generalizing taken with
  | nil => rfl
  | cons s ss ih => simp [entries, ih]

theorem entries_anchor (taken : List String) (ss : List Summary) :
    (entries taken ss).map Entry.anchor = anchorsAfter taken (ss.map (anchorBase ·.name)) := by
  induction ss generalizing taken with
  | nil => rfl
  | cons s ss ih => simp [entries, anchorsAfter, anchor_eq, ih]

theorem numbered_toSummary (taken : List String) (secs : List (String × String × List Summary)) :
    (numbered taken secs).flatMap (·.entries.map Entry.toSummary) = secs.flatMap (·.2.2) := by
  induction secs generalizing taken with
  | nil => rfl
  | cons sec secs ih =>
    obtain ⟨id, title, ss⟩ := sec
    simp [numbered, entries_toSummary, ih]

/-- The anchors of all sections are those of all declarations in order. -/
theorem numbered_anchor (taken : List String) (secs : List (String × String × List Summary)) :
    (numbered taken secs).flatMap (·.entries.map Entry.anchor) =
      anchorsAfter taken ((secs.flatMap (·.2.2)).map (anchorBase ·.name)) := by
  induction secs generalizing taken with
  | nil => rfl
  | cons sec secs ih =>
    obtain ⟨id, title, ss⟩ := sec
    simp [numbered, entries_anchor, ih, anchorsAfter_append]

/-- What a section shows. -/
def Section.view (s : Section) : String × String × List Summary :=
  (s.id, s.title, s.entries.map Entry.toSummary)

theorem numbered_view (taken : List String) (secs : List (String × String × List Summary)) :
    (numbered taken secs).map Section.view = secs := by
  induction secs generalizing taken with
  | nil => rfl
  | cons sec secs ih =>
    obtain ⟨id, title, ss⟩ := sec
    simp [numbered, Section.view, entries_toSummary, ih]

/-- The sections of a page show the sorts that have declarations, in order. -/
theorem sections_view (p : Package) :
    (sections p).map Section.view = (summaries p).filter (!·.2.2.isEmpty) := by
  have hview := congrArg (List.filter (!·.2.2.isEmpty)) (numbered_view [] (summaries p))
  rw [List.filter_map] at hview
  rw [← hview, sections]
  congr 2
  funext s
  simp [Section.view]

/-- Sections without entries are left out, and nothing with them. -/
theorem flatMap_sections {α : Type} (p : Package) (f : Entry → α) :
    (sections p).flatMap (·.entries.map f) =
      (numbered [] (summaries p)).flatMap (·.entries.map f) := by
  unfold sections
  induction numbered [] (summaries p) with
  | nil => rfl
  | cons s ss ih =>
    by_cases hs : s.entries.isEmpty
    · rw [List.filter_cons_of_neg (by simp [hs]), ih, List.flatMap_cons, List.isEmpty_iff.1 hs]
      rfl
    · rw [List.filter_cons_of_pos (by simp [hs]), List.flatMap_cons, List.flatMap_cons, ih]

end PackageDoc.Html
