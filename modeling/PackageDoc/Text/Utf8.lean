/-
  Reading UTF-8.

  Source files are bytes.  `decode` reads them as text, and where they are not
  UTF-8 it tells the offset at which the first ill-formed character starts.
  Offsets into a source are offsets into its bytes, so `byteLength` measures a
  text by the bytes that it takes.
-/
namespace PackageDoc.Text

/-- The number of bytes of a text in UTF-8. -/
def byteLength : List Char → Nat
  | [] => 0
  | c :: cs => c.utf8Size + byteLength cs

@[simp] theorem byteLength_nil : byteLength [] = 0 := rfl

@[simp] theorem byteLength_cons (c : Char) (cs : List Char) :
    byteLength (c :: cs) = c.utf8Size + byteLength cs := rfl

@[simp] theorem byteLength_append (cs ds : List Char) :
    byteLength (cs ++ ds) = byteLength cs + byteLength ds := by
  induction cs with
  | nil => simp
  | cons c cs ih => simp [ih, Nat.add_assoc]

/-- Reads the characters from byte `i` on, after the characters `done` (latest
    first).  The error is the offset of the first character that is ill-formed. -/
def decodeFrom (bytes : ByteArray) (i : Nat) (done : List Char) : Except Nat (List Char) :=
  if i < bytes.size then
    match bytes.utf8DecodeChar? i with
    | some c => decodeFrom bytes (i + c.utf8Size) (c :: done)
    | none => .error i
  else .ok done.reverse
termination_by bytes.size - i
decreasing_by
  have := c.utf8Size_pos
  omega

/-- Reads bytes as text. -/
def decode (bytes : ByteArray) : Except Nat (List Char) := decodeFrom bytes 0 []

/-- What is left of a text after its first `n` bytes.  A character that reaches
    across the cut is dropped with them. -/
def dropBytes : Nat → List Char → List Char
  | _, [] => []
  | n, c :: cs => if n = 0 then c :: cs else dropBytes (n - c.utf8Size) cs

/-- The first `n` bytes of a text, as far as they are whole characters. -/
def takeBytes : Nat → List Char → List Char
  | _, [] => []
  | n, c :: cs => if c.utf8Size ≤ n then c :: takeBytes (n - c.utf8Size) cs else []

/-- The text between two byte offsets; empty when the second does not lie after
    the first. -/
def slice (text : List Char) (start stop : Nat) : List Char :=
  takeBytes (stop - start) (dropBytes start text)

@[simp] theorem dropBytes_zero (cs : List Char) : dropBytes 0 cs = cs := by
  cases cs <;> simp [dropBytes]

@[simp] theorem dropBytes_append (cs ds : List Char) :
    dropBytes (byteLength cs) (cs ++ ds) = ds := by
  induction cs with
  | nil => simp
  | cons c cs ih =>
    have := c.utf8Size_pos
    simp [dropBytes, ih]
    omega

@[simp] theorem takeBytes_append (cs ds : List Char) :
    takeBytes (byteLength cs) (cs ++ ds) = cs := by
  induction cs with
  | nil =>
    cases ds with
    | nil => rfl
    | cons d ds =>
      have := d.utf8Size_pos
      simp [takeBytes]; omega
  | cons c cs ih => simp [takeBytes, ih]

/-- The slice of a text between the ends of two of its leading pieces. -/
theorem slice_append (as bs cs : List Char) :
    slice (as ++ bs ++ cs) (byteLength as) (byteLength as + byteLength bs) = bs := by
  simp [slice, List.append_assoc]

end PackageDoc.Text
