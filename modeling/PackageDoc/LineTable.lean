/-
  Lines and columns.

  A `LineTable` holds the offsets at which the lines of a source start, as they
  are met by the scanner.  It is strictly increasing from 0, whatever is
  reported to it: an offset is kept only if it lies behind the last one.  The
  line of an offset is found by bisection; lines and columns count from 1, and
  columns count bytes.
-/
namespace PackageDoc

/-- The offsets at which lines start. -/
structure LineTable where
  starts : Array Nat
  head_eq : starts[0]? = some 0
  sorted : starts.toList.Pairwise (· < ·)

/-- A place in a source, for messages. -/
structure Position where
  file : String
  offset : Nat
  line : Nat
  column : Nat
  deriving DecidableEq, Repr

/-- A place as it is told to the reader. -/
def Position.text (p : Position) : String :=
  s!"File: {p.file}; Line: {p.line}; Position: {p.column}"

namespace LineTable

/-- The table of a source of which nothing has been read. -/
def empty : LineTable := ⟨#[0], rfl, by simp⟩

instance : Inhabited LineTable := ⟨empty⟩

theorem size_pos (t : LineTable) : 0 < t.starts.size := by
  rcases Nat.eq_zero_or_pos t.starts.size with h | h
  · have := t.head_eq
    simp [h] at this
  · exact h

/-- The start of the last line. -/
def last (t : LineTable) : Nat :=
  have := Nat.sub_lt t.size_pos Nat.one_pos
  t.starts[t.starts.size - 1]

/-- No line starts behind the last one. -/
theorem le_last (t : LineTable) {s : Nat} (h : s ∈ t.starts.toList) : s ≤ t.last := by
  obtain ⟨i, hi, rfl⟩ := List.getElem_of_mem h
  have hi' : i < t.starts.size := by simpa using hi
  rcases Nat.lt_or_ge i (t.starts.size - 1) with hlt | hge
  · have := List.pairwise_iff_getElem.1 t.sorted i (t.starts.size - 1) hi
      (by have := t.size_pos; simp; omega) hlt
    exact Nat.le_of_lt (by simpa [last] using this)
  · have : i = t.starts.size - 1 := by omega
    subst this
    simp [last]

/-- Reports that a line starts at `offset`. -/
def add (t : LineTable) (offset : Nat) : LineTable :=
  if h : t.last < offset then
    { starts := t.starts.push offset
      head_eq := by
        rw [Array.getElem?_push_lt t.size_pos]
        simpa [Array.getElem?_eq_getElem t.size_pos] using t.head_eq
      sorted := by
        rw [Array.toList_push, List.pairwise_append]
        refine ⟨t.sorted, by simp, fun a ha b hb => ?_⟩
        rw [List.mem_singleton.1 hb]
        exact Nat.lt_of_le_of_lt (t.le_last ha) h }
  else t

/-- Reports the lines that start behind the line feeds of `cs`, a text that
    starts at `offset`. -/
def addLines (t : LineTable) (offset : Nat) : List Char → LineTable
  | [] => t
  | c :: cs =>
    let next := offset + c.utf8Size
    (if c = '\n' then t.add next else t).addLines next cs

/-- Searches between the lines `lo` and `hi` (counted from 0) for the first that
    starts behind `pos`. -/
def bisect (t : LineTable) (pos lo hi : Nat) : Nat :=
  if lo < hi then
    let mid := (lo + hi) / 2
    if t.starts.getD mid 0 ≤ pos then t.bisect pos (mid + 1) hi else t.bisect pos lo mid
  else lo
termination_by hi - lo

/-- The line of an offset: the last that starts at or before it. -/
def line (t : LineTable) (pos : Nat) : Nat := max 1 (t.bisect pos 0 t.starts.size)

/-- The place of an offset. -/
def position (t : LineTable) (file : String) (pos : Nat) : Position :=
  let line := t.line pos
  ⟨file, pos, line, pos - t.starts.getD (line - 1) 0 + 1⟩

end LineTable

end PackageDoc
