/-
  Tables of character codes.

  A property of characters is given by the codes that have it, in increasing
  order: as ranges, or as strides where every second code has the property
  (capital letters that alternate with their small forms).  The properties are
  those of Unicode 17.
-/
namespace PackageDoc.Text

/-- The codes from `first` to `last`. -/
structure CodeRange where
  first : Nat
  last : Nat
  deriving DecidableEq, Repr

/-- Whether one of the ranges, given in increasing order, holds the code `n`.
    The search stops at the first range that lies above `n`. -/
def inRanges (n : Nat) : List CodeRange → Bool
  | [] => false
  | r :: rs => r.first ≤ n && (n ≤ r.last || inRanges n rs)

/-- The codes `first`, `first + step`, ... up to `last`. -/
structure CodeStride where
  first : Nat
  last : Nat
  step : Nat
  deriving DecidableEq, Repr

/-- Whether the stride holds the code `n`. -/
def CodeStride.contains (s : CodeStride) (n : Nat) : Bool :=
  s.first ≤ n && n ≤ s.last && (n - s.first) % s.step == 0

/-- Whether one of the strides holds the code `n`. -/
def inStrides (n : Nat) (ss : List CodeStride) : Bool := ss.any (·.contains n)

/-- A stride whose codes are mapped to others: `first + k` to `target + k`. -/
structure CodeShift where
  source : CodeStride
  target : Nat
  deriving DecidableEq, Repr

/-- The code that `n` is mapped to by the shift that holds it. -/
def shifted? (n : Nat) (ss : List CodeShift) : Option Nat :=
  (ss.find? (·.source.contains n)).map fun s => s.target + (n - s.source.first)

end PackageDoc.Text
