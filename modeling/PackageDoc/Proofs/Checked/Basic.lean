/-
  Operations that can fail.

  Offsets and counters have 32 bits, a text can be cut only between its characters, and an
  entry of a table is there only below its size.  Here these operations are partial: they
  give `none` where a program that does them has to stop.  Each one comes with the
  condition under which it gives what the total operation does.

  A line table needs no condition: every offset has a place in it (`position?_eq`).
-/
import PackageDoc.Proofs.LineTable
import PackageDoc.Proofs.Text.Encoding
import PackageDoc.Proofs.Token.Lines

namespace PackageDoc.Checked

open Text

/-! ## Numbers -/

/-- A sum, if it has 32 bits. -/
def add? (m n : Nat) : Option Nat := if m + n ≤ maxOffset then some (m + n) else none

/-- A difference, if it is not below zero. -/
def sub? (m n : Nat) : Option Nat := if n ≤ m then some (m - n) else none

theorem add?_eq {m n : Nat} (h : m + n ≤ maxOffset) : add? m n = some (m + n) := if_pos h

theorem sub?_eq {m n : Nat} (h : n ≤ m) : sub? m n = some (m - n) := if_pos h

/-! ## Texts -/

/-- Whether an offset into a text lies between characters, or at an end of the text. -/
def isCut : Nat → List Char → Bool
  | 0, _ => true
  | _ + 1, [] => false
  | n + 1, c :: cs => c.utf8Size ≤ n + 1 && isCut (n + 1 - c.utf8Size) cs

/-- The text between two offsets, if they are in order, inside and between characters. -/
def slice? (text : List Char) (start stop : Nat) : Option (List Char) :=
  if start ≤ stop ∧ stop ≤ byteLength text ∧ isCut start text ∧ isCut stop text then
    some (slice text start stop)
  else none

/-- The bytes from an offset on, if it is inside. -/
def bytesFrom? (bytes : List UInt8) (start : Nat) : Option (List UInt8) :=
  if start ≤ bytes.length then some (bytes.drop start) else none

/-- The bytes between two offsets, if they are in order and inside. -/
def bytesBetween? (bytes : List UInt8) (start stop : Nat) : Option (List UInt8) :=
  if start ≤ stop ∧ stop ≤ bytes.length then some ((bytes.take stop).drop start) else none

/-- The end of a leading piece is a place to cut. -/
theorem isCut_append (as bs : List Char) : isCut (byteLength as) (as ++ bs) = true := by
  induction as with
  | nil => simp [isCut]
  | cons c as ih =>
    obtain ⟨n, hn⟩ := Nat.exists_eq_succ_of_ne_zero (show byteLength (c :: as) ≠ 0 by
      have := c.utf8Size_pos
      rw [byteLength_cons]
      omega)
    have hrest : n + 1 - c.utf8Size = byteLength as := by
      rw [byteLength_cons] at hn
      omega
    have hle : c.utf8Size ≤ n + 1 := by
      rw [byteLength_cons] at hn
      omega
    rw [hn, List.cons_append, isCut, hrest, ih]
    simpa using hle

/-- A text can be cut at the ends of two of its leading pieces. -/
theorem slice?_append (as bs cs : List Char) :
    slice? (as ++ bs ++ cs) (byteLength as) (byteLength as + byteLength bs) = some bs := by
  have hstart : isCut (byteLength as) (as ++ bs ++ cs) = true := by
    rw [List.append_assoc]
    exact isCut_append as (bs ++ cs)
  have hstop : isCut (byteLength as + byteLength bs) (as ++ bs ++ cs) = true := by
    rw [← byteLength_append]
    exact isCut_append (as ++ bs) cs
  rw [slice?, if_pos ⟨by omega, by simp only [byteLength_append]; omega, hstart, hstop⟩,
    slice_append]

theorem slice?_end (as bs : List Char) :
    slice? (as ++ bs) (byteLength as) (byteLength (as ++ bs)) = some bs := by
  have h := slice?_append as bs []
  rwa [List.append_nil, ← byteLength_append] at h

/-- A text can be cut at all cuts that are in order. -/
theorem slice?_eq {text : List Char} {start stop : Nat} (hle : start ≤ stop)
    (hstop : stop ≤ byteLength text) (hcut : isCut start text = true)
    (hcut' : isCut stop text = true) :
    slice? text start stop = some (slice text start stop) :=
  if_pos ⟨hle, hstop, hcut, hcut'⟩

example : slice? ['é'] 1 2 = none := by decide

/-! ## Lines -/

/-- The place of an offset, if its line is in the table and starts before it. -/
def position? (t : LineTable) (file : String) (pos : Nat) : Option Position := do
  let line := t.line pos
  let start ← t.starts[← sub? line 1]?
  return ⟨file, pos, line, (← sub? pos start) + 1⟩

/-- **Every offset has a place in every line table.** -/
theorem position?_eq (t : LineTable) (file : String) (pos : Nat) :
    position? t file pos = some (t.position file pos) := by
  have hstart := (t.start_of_line pos).2.1
  simp only [position?, LineTable.position, sub?_eq (t.line_pos pos), Option.bind_eq_bind,
    Option.bind_some, t.getElem?_line, sub?_eq hstart]
  rfl

end PackageDoc.Checked
