/-
  The line of an offset.

  The line that the bisection finds is the number of lines that start at or
  before the offset (`line_eq_countP`), and for the table of a text this is one
  more than the number of line feeds before the offset (`line_addLines`).
-/
import PackageDoc.LineTable
import PackageDoc.Text.Lines
import PackageDoc.Text.Utf8

namespace PackageDoc.LineTable

open Text

/-! ## The bisection -/

/-- In an increasing list, the entries up to a bound come first. -/
theorem getElem_le_iff {l : List Nat} (h : l.Pairwise (· < ·)) (pos : Nat) {k : Nat}
    (hk : k < l.length) : l[k] ≤ pos ↔ k < l.countP (· ≤ pos) := by
  induction l generalizing k with
  | nil => simp at hk
  | cons a l ih =>
    obtain ⟨hlt, hl⟩ := List.pairwise_cons.1 h
    by_cases ha : a ≤ pos
    · rw [List.countP_cons_of_pos (by simpa using ha)]
      cases k with
      | zero => simp [ha]
      | succ k =>
        rw [List.getElem_cons_succ, ih hl]
        omega
    · have hnone : l.countP (· ≤ pos) = 0 := by
        rw [List.countP_eq_zero]
        intro b hb
        have := hlt b hb
        simp
        omega
      rw [List.countP_cons_of_neg (by simpa using ha), hnone]
      cases k with
      | zero => simpa using ha
      | succ k =>
        have := hlt _ (List.getElem_mem (Nat.lt_of_succ_lt_succ hk))
        rw [List.getElem_cons_succ]
        omega

theorem getD_starts_le_iff (t : LineTable) (pos : Nat) {k : Nat} (hk : k < t.starts.size) :
    t.starts.getD k 0 ≤ pos ↔ k < t.starts.toList.countP (· ≤ pos) := by
  have hget : t.starts.getD k 0 = t.starts.toList[k] := by
    simp [Array.getD, hk]
  rw [hget]
  exact getElem_le_iff t.sorted pos (by simpa using hk)

/-- The bisection closes in on the number of entries up to `pos`. -/
theorem bisect_eq (t : LineTable) (pos : Nat) {lo hi : Nat}
    (hlo : lo ≤ t.starts.toList.countP (· ≤ pos)) (hhi : t.starts.toList.countP (· ≤ pos) ≤ hi)
    (hsize : hi ≤ t.starts.size) :
    t.bisect pos lo hi = t.starts.toList.countP (· ≤ pos) := by
  fun_induction bisect t pos lo hi with
  | case1 lo hi hlt mid hle ih =>
    rw [getD_starts_le_iff t pos (by omega)] at hle
    exact ih hle hhi hsize
  | case2 lo hi hlt mid hle ih =>
    rw [getD_starts_le_iff t pos (by omega)] at hle
    exact ih hlo (by omega) (by omega)
  | case3 lo hi hge => omega

/-- The line of an offset counts the lines that start at or before it. -/
theorem line_eq_countP (t : LineTable) (pos : Nat) :
    t.line pos = t.starts.toList.countP (· ≤ pos) := by
  have hle : t.starts.toList.countP (· ≤ pos) ≤ t.starts.size := by
    simpa using List.countP_le_length (p := fun s : Nat => decide (s ≤ pos)) (l := t.starts.toList)
  have hpos : 0 < t.starts.toList.countP (· ≤ pos) := by
    have hsize : 0 < t.starts.toList.length := by simpa using t.size_pos
    have hhead : t.starts.toList[0] = 0 := by
      have := t.head_eq
      simpa [Array.getElem?_eq_getElem t.size_pos] using this
    rw [← getElem_le_iff t.sorted pos hsize, hhead]
    omega
  rw [line, t.bisect_eq pos (Nat.zero_le _) hle (Nat.le_refl _)]
  omega

theorem line_pos (t : LineTable) (pos : Nat) : 0 < t.line pos := Nat.le_max_left _ _

theorem line_le_size (t : LineTable) (pos : Nat) : t.line pos ≤ t.starts.size := by
  rw [line_eq_countP, ← Array.length_toList]
  exact List.countP_le_length

theorem getElem?_line (t : LineTable) (pos : Nat) :
    t.starts[t.line pos - 1]? = some (t.starts.getD (t.line pos - 1) 0) := by
  have hpos := t.line_pos pos
  have hle := t.line_le_size pos
  simp [Array.getD, show t.line pos - 1 < t.starts.size by omega]

/-! ## The table of a text -/

/-- Where the lines of a text start, behind its line feeds. -/
def startsFrom (o : Nat) : List Char → List Nat
  | [] => []
  | c :: cs =>
    let next := o + c.utf8Size
    (if c = '\n' then [next] else []) ++ startsFrom next cs

theorem starts_add (t : LineTable) {o : Nat} (h : t.last < o) :
    (t.add o).starts = t.starts.push o := by
  rw [add, dif_pos h]

theorem last_add (t : LineTable) {o : Nat} (h : t.last < o) : (t.add o).last = o := by
  rw [add, dif_pos h]
  simp [last]

theorem starts_addLines (t : LineTable) {o : Nat} (cs : List Char) (h : t.last ≤ o) :
    (t.addLines o cs).starts.toList = t.starts.toList ++ startsFrom o cs := by
  induction cs generalizing t o with
  | nil => simp [addLines, startsFrom]
  | cons c cs ih =>
    have hc := c.utf8Size_pos
    simp only [addLines, startsFrom]
    split
    · have hlast : t.last < o + c.utf8Size := by omega
      rw [ih _ (Nat.le_of_eq (t.last_add hlast)), t.starts_add hlast]
      simp
    · rw [ih _ (by omega)]
      simp

theorem startsFrom_append (o : Nat) (cs ds : List Char) :
    startsFrom o (cs ++ ds) = startsFrom o cs ++ startsFrom (o + byteLength cs) ds := by
  induction cs generalizing o with
  | nil => simp [startsFrom]
  | cons c cs ih => simp [startsFrom, ih, Nat.add_assoc]

theorem lt_of_mem_startsFrom {o s : Nat} {cs : List Char} (h : s ∈ startsFrom o cs) :
    o < s ∧ s ≤ o + byteLength cs := by
  induction cs generalizing o with
  | nil => simp [startsFrom] at h
  | cons c cs ih =>
    have hc := c.utf8Size_pos
    simp only [startsFrom, List.mem_append] at h
    rw [byteLength_cons]
    rcases h with h | h
    · split at h
      · have := List.mem_singleton.1 h
        omega
      · simp at h
    · have := ih h
      omega

theorem length_startsFrom (o : Nat) (cs : List Char) : (startsFrom o cs).length = newlines cs := by
  induction cs generalizing o with
  | nil => rfl
  | cons c cs ih =>
    simp only [startsFrom, List.length_append, ih, newlines, List.count_cons]
    by_cases hc : c = '\n' <;> simp [hc, Nat.add_comm]

/-- **The line of an offset is one more than the number of line feeds before
    it.** -/
theorem line_addLines (front back : List Char) :
    (empty.addLines 0 (front ++ back)).line (byteLength front) = 1 + newlines front := by
  have hfront : (startsFrom 0 front).countP (· ≤ byteLength front) = newlines front := by
    rw [← length_startsFrom 0, List.countP_eq_length]
    intro s hs
    have := lt_of_mem_startsFrom hs
    simp
    omega
  have hback : (startsFrom (0 + byteLength front) back).countP (· ≤ byteLength front) = 0 := by
    rw [List.countP_eq_zero]
    intro s hs
    have := lt_of_mem_startsFrom hs
    simp
    omega
  have hstarts : (empty.addLines 0 (front ++ back)).starts.toList =
      [0] ++ startsFrom 0 (front ++ back) := starts_addLines empty _ (by simp [empty, last])
  rw [line_eq_countP, hstarts, startsFrom_append, List.countP_append, List.countP_append, hfront,
    hback]
  simp

end PackageDoc.LineTable
