/-
  Line tables, whatever is reported.

  A line table takes offsets in any order, and again and again.  It keeps those that
  lie behind all that were reported before them (`records`), so it stays increasing,
  and the bisection counts the lines that start at or before an offset.  Such a line
  starts with an entry of the table, and no further behind than the offset: a line and
  a column are the place of one offset only.

  Main statement: `ofReports_places`.
-/
import Mathlib.Data.List.Induction
import PackageDoc.Proofs.Checked.Basic

namespace PackageDoc.LineTable

/-! ## Reports -/

/-- The table after some reports. -/
def ofReports (os : List Nat) : LineTable := os.foldl add empty

/-- The offsets that are greater than 0 and than all offsets before them. -/
def records (os : List Nat) : List Nat :=
  (os.zipIdx.filter fun (o, i) => (0 :: os.take i).all (· < o)).map Prod.fst

theorem ofReports_concat (os : List Nat) (o : Nat) :
    ofReports (os ++ [o]) = (ofReports os).add o := by
  simp [ofReports]

theorem records_concat (os : List Nat) (o : Nat) :
    records (os ++ [o]) = records os ++ if (0 :: os).all (· < o) then [o] else [] := by
  have hbefore : ∀ x ∈ os.zipIdx, (0 :: (os ++ [o]).take x.2).all (· < x.1) =
      (0 :: os.take x.2).all (· < x.1) := by
    intro x hx
    have hlt := List.snd_lt_of_mem_zipIdx hx
    rw [List.take_append_of_le_length (by omega)]
  rw [records, List.zipIdx_append, List.filter_append, List.map_append,
    List.filter_congr hbefore]
  congr 1
  simp only [List.zipIdx_cons, List.zipIdx_nil, List.filter_cons, Nat.zero_add, List.take_left,
    List.filter_nil]
  split <;> rfl

theorem last_add_eq_max (t : LineTable) (o : Nat) : (t.add o).last = max t.last o := by
  by_cases h : t.last < o
  · rw [t.last_add h]
    omega
  · rw [add, dif_neg h]
    omega

theorem last_ofReports_lt_iff (os : List Nat) (o : Nat) :
    (ofReports os).last < o ↔ ∀ a ∈ 0 :: os, a < o := by
  induction os using List.reverseRecOn with
  | nil => simp [ofReports, empty, last]
  | append_singleton os b ih =>
    rw [ofReports_concat, last_add_eq_max, Nat.max_lt, ih]
    grind

/-- **A table holds 0 and what was greater than all before it.** -/
theorem starts_ofReports (os : List Nat) : (ofReports os).starts.toList = 0 :: records os := by
  induction os using List.reverseRecOn with
  | nil => rfl
  | append_singleton os o ih =>
    have hall : (0 :: os).all (· < o) = true ↔ (ofReports os).last < o := by
      rw [last_ofReports_lt_iff]
      simp
    rw [ofReports_concat, records_concat, ← List.cons_append, ← ih]
    by_cases h : (ofReports os).last < o
    · rw [if_pos (hall.2 h), starts_add _ h, Array.toList_push]
    · rw [if_neg (mt hall.1 h), add, dif_neg h, List.append_nil]

/-! ## Places -/

theorem monotone_line (t : LineTable) : Monotone t.line := by
  intro pos pos' h
  rw [line_eq_countP, line_eq_countP]
  refine List.countP_mono_left fun s _ hs => ?_
  simp only [decide_eq_true_eq] at hs ⊢
  omega

/-- The column counts from the start of the line. -/
theorem start_add_column (t : LineTable) (file : String) (pos : Nat) :
    ∃ start, t.starts[(t.position file pos).line - 1]? = some start ∧
      start + (t.position file pos).column - 1 = pos := by
  have hle := (t.start_of_line pos).2.1
  refine ⟨_, t.getElem?_line pos, ?_⟩
  simp only [position]
  omega

/-- A place is that of one offset. -/
theorem injective_position (t : LineTable) (file : String) :
    Function.Injective fun pos => ((t.position file pos).line, (t.position file pos).column) := by
  intro pos pos' h
  obtain ⟨hline, hcolumn⟩ := Prod.mk.inj h
  obtain ⟨start, hstart, hpos⟩ := t.start_add_column file pos
  obtain ⟨start', hstart', hpos'⟩ := t.start_add_column file pos'
  rw [hline, hstart'] at hstart
  obtain rfl := Option.some.inj hstart
  rw [← hpos, ← hpos', hcolumn]

/-- **Lines and columns are right after any reports.**  The table has grown by records
    only; the bisection counts its entries up to an offset; and the place of an offset,
    which is found without going below zero or outside the table, leads back to it. -/
theorem ofReports_places (os : List Nat) (file : String) :
    (ofReports os).starts.toList = 0 :: records os ∧ (0 :: records os).Pairwise (· < ·) ∧
      (∀ pos, (ofReports os).bisect pos 0 (ofReports os).starts.size =
          (0 :: records os).countP (· ≤ pos) ∧
        (ofReports os).line pos = (0 :: records os).countP (· ≤ pos) ∧
        1 ≤ (ofReports os).line pos) ∧
      Monotone (ofReports os).line ∧
      (∀ pos, Checked.position? (ofReports os) file pos = some ((ofReports os).position file pos) ∧
        ∃ start, (0 :: records os)[((ofReports os).position file pos).line - 1]? = some start ∧
          start + ((ofReports os).position file pos).column - 1 = pos) ∧
      Function.Injective fun pos =>
        (((ofReports os).position file pos).line, ((ofReports os).position file pos).column) := by
  have hstarts := starts_ofReports os
  refine ⟨hstarts, hstarts ▸ (ofReports os).sorted, fun pos => ⟨?_, ?_, line_pos _ pos⟩,
    monotone_line _, fun pos => ⟨Checked.position?_eq _ file pos, ?_⟩, injective_position _ file⟩
  · rw [← hstarts]
    refine bisect_eq _ pos (Nat.zero_le _) ?_ (Nat.le_refl _)
    rw [← Array.length_toList]
    exact List.countP_le_length
  · rw [← hstarts]
    exact line_eq_countP _ pos
  · rw [← hstarts]
    simpa using start_add_column (ofReports os) file pos

/-- Offsets out of order, repeated and 0. -/
example : records [0, 7, 3, 7, 9, 0, 8] = [7, 9] := by decide

end PackageDoc.LineTable
