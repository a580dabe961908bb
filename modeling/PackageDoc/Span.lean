/-
  Spans of source text.

  A span is a pair of byte offsets, the second exclusive.  Offsets are those of
  files below four gigabytes: a span that is given by its length ends at the
  greatest such offset if it would end behind it.
-/
namespace PackageDoc

/-- The greatest offset into a source. -/
def maxOffset : Nat := 0xFFFFFFFF

/-- A sum of offsets that stops at the greatest one. -/
def addOffset (m n : Nat) : Nat := min (m + n) maxOffset

/-- The bytes from `start` up to `stop`. -/
structure Span where
  start : Nat
  stop : Nat
  deriving DecidableEq, Repr, Inhabited

namespace Span

/-- The span of nodes that were not read from a source. -/
def none : Span := ⟨0, 0⟩

/-- The span of `length` bytes from `start` on. -/
def ofLength (start length : Nat) : Span := ⟨start, addOffset start (min length maxOffset)⟩

/-- The least span that covers two spans. -/
def merge (s t : Span) : Span := ⟨min s.start t.start, max s.stop t.stop⟩

/-- A span with the span of an optional part. -/
def merge? (s : Span) : Option Span → Span
  | some t => s.merge t
  | .none => s

/-- `start..stop`. -/
def text (s : Span) : String := s!"{s.start}..{s.stop}"

end Span

end PackageDoc
