/-
  Reading a text by its bytes.

  A reader stands at an offset into the bytes of a text.  It looks at single bytes, cuts
  pieces out of the text and searches for bytes, and every one of these is partial: a piece
  must be cut between characters, a search must start inside, and a step of one byte must
  be over an ASCII character.

  A reader that stands between `read` and `rest` (`Reader.At`) does none of this in vain.
  What it sees is what stands at the front of `rest`: in UTF-8 a byte below 128 is a
  character of its own, so a search among the bytes finds what a search among the
  characters does.
-/
import Mathlib.Data.List.TakeWhile
import Mathlib.Tactic.ByContra
import PackageDoc.Proofs.Checked.Basic

namespace PackageDoc.Checked

open Text

/-! ## Searches among bytes -/

/-- The bytes of a text. -/
def encode (cs : List Char) : List UInt8 := cs.flatMap String.utf8EncodeChar

/-- The offset of the first byte `b`. -/
def findByte? (b : UInt8) : List UInt8 → Option Nat
  | [] => none
  | x :: bs => if x = b then some 0 else (findByte? b bs).map (· + 1)

/-- The offset of the first byte `a` that a byte `b` follows. -/
def findPair? (a b : UInt8) : List UInt8 → Option Nat
  | [] => none
  | x :: bs =>
    if x = a ∧ bs.head? = some b then some 0 else (findPair? a b bs).map (· + 1)

/-- Where lines start behind the line feeds of some bytes, the first of which is byte `i`
    behind `start`. -/
def lineStarts? (start i : Nat) : List UInt8 → Option (List Nat)
  | [] => some []
  | b :: bs =>
    if b = 10 then do
      let line ← add? (← add? start i) 1
      return line :: (← lineStarts? start (i + 1) bs)
    else lineStarts? start (i + 1) bs

/-! ## Readers -/

/-- A place in a text, and the lines that have started before it. -/
structure Reader where
  text : List Char
  pos : Nat
  lines : LineTable

namespace Reader

/-- The bytes of the text. -/
def bytes (r : Reader) : List UInt8 := encode r.text

/-- A byte; zero behind the end. -/
def byteAt (r : Reader) (n : Nat) : UInt8 := r.bytes[n]?.getD 0

/-- The byte here. -/
def current (r : Reader) : UInt8 := r.byteAt r.pos

/-- The byte behind the one here. -/
def peek (r : Reader) : UInt8 := r.byteAt (r.pos + 1)

/-- The reader at another place. -/
def moveTo (r : Reader) (pos : Nat) : Reader := { r with pos }

/-- The character here, if it is not the end. -/
def char? (r : Reader) : Option (Option Char) :=
  (slice? r.text r.pos (byteLength r.text)).map List.head?

/-- Moves over an ASCII character. -/
def advance? (r : Reader) : Option Reader :=
  if r.current < 128 then some (r.moveTo (r.pos + 1)) else none

/-- Moves over some bytes, to the end at most. -/
def advanceBy (r : Reader) (n : Nat) : Reader := r.moveTo (min (r.pos + n) (byteLength r.text))

/-- Moves over a character, if it is not the end. -/
def advanceChar? (r : Reader) : Option Reader := do
  match ← r.char? with
  | some c => return r.moveTo (r.pos + c.utf8Size)
  | none => return r

/-- The text from an offset up to here. -/
def sliceFrom? (r : Reader) (start : Nat) : Option (List Char) := slice? r.text start r.pos

theorem pos_lt_of_char? {r : Reader} {c : Char} (h : r.char? = some (some c)) :
    r.pos < byteLength r.text := by
  obtain ⟨piece, hpiece, hhead⟩ := Option.map_eq_some_iff.1 h
  unfold slice? at hpiece
  split at hpiece
  · rename_i hin
    obtain rfl := Option.some.inj hpiece
    rcases Nat.lt_or_eq_of_le hin.1 with hlt | heq
    · exact hlt
    · rw [heq, slice_self] at hhead
      cases hhead
  · cases hpiece

/-- Moves over the characters that `p` accepts. -/
def eatWhile? (p : Char → Bool) (r : Reader) : Option Reader :=
  match h : r.char? with
  | none => none
  | some none => some r
  | some (some c) =>
    have := pos_lt_of_char? h
    if p c then eatWhile? p (r.moveTo (r.pos + c.utf8Size)) else some r
termination_by byteLength r.text - r.pos
decreasing_by
  have hpos := c.utf8Size_pos
  simp only [moveTo]
  omega

/-- Moves to the next line feed, or to the end. -/
def eatLine? (r : Reader) : Option Reader := do
  let remaining ← bytesFrom? r.bytes r.pos
  match findByte? 10 remaining with
  | some i => return r.moveTo (r.pos + i)
  | none => return r.moveTo (byteLength r.text)

/-- Moves behind the next star and slash, or to the end, and tells which. -/
def eatComment? (r : Reader) : Option (Bool × Reader) := do
  let remaining ← bytesFrom? r.bytes r.pos
  match findPair? 42 47 remaining with
  | some i => return (true, r.moveTo (r.pos + (i + 2)))
  | none => return (false, r.moveTo (byteLength r.text))

theorem lt_of_findByte? {b : UInt8} {bs : List UInt8} {i : Nat} (h : findByte? b bs = some i) :
    i < bs.length := by
  induction bs generalizing i with
  | nil => cases h
  | cons x bs ih =>
    unfold findByte? at h
    split at h
    · obtain rfl := Option.some.inj h
      simp
    · obtain ⟨j, hj, rfl⟩ := Option.map_eq_some_iff.1 h
      have hlt := ih hj
      simp only [List.length_cons]
      omega

theorem lt_of_bytesFrom? {bytes remaining : List UInt8} {n i : Nat}
    (h : bytesFrom? bytes n = some remaining) (hi : i < remaining.length) :
    n + i < bytes.length := by
  unfold bytesFrom? at h
  split at h
  · obtain rfl := Option.some.inj h
    rw [List.length_drop] at hi
    omega
  · cases h

/-- Moves to the quote that closes a string, or to the end, and tells which.  A quote that
    is written twice closes nothing. -/
def eatString? (r : Reader) : Option (Bool × Reader) :=
  match h : bytesFrom? r.bytes r.pos with
  | none => none
  | some remaining =>
    match hi : findByte? 39 remaining with
    | none => some (false, r.moveTo (byteLength r.text))
    | some i =>
      have := lt_of_bytesFrom? h (lt_of_findByte? hi)
      let quote := r.moveTo (r.pos + i)
      if quote.peek = 39 then eatString? (quote.moveTo (quote.pos + 2)) else some (true, quote)
termination_by r.bytes.length - r.pos
decreasing_by
  change r.bytes.length - (r.pos + i + 2) < r.bytes.length - r.pos
  omega

/-- Reports the lines that start from an offset up to here. -/
def markLines? (r : Reader) (start : Nat) : Option Reader := do
  let passed ← bytesBetween? r.bytes start r.pos
  let starts ← lineStarts? start 0 passed
  return { r with lines := starts.foldl LineTable.add r.lines }

/-- A space, a tab, a carriage return or a line feed. -/
def isSpacingByte (b : UInt8) : Bool := b = 32 || b = 9 || b = 13 || b = 10

theorem pos_lt_of_isSpacingByte {r : Reader} (h : isSpacingByte r.current = true) :
    r.pos < r.bytes.length := by
  by_contra hge
  have hzero : r.current = 0 := by
    rw [current, byteAt, List.getElem?_eq_none (by omega)]
    rfl
  rw [hzero] at h
  revert h
  decide

theorem advance?_eq_some {r next : Reader} (h : r.advance? = some next) :
    next = r.moveTo (r.pos + 1) := by
  unfold advance? at h
  split at h
  · exact (Option.some.inj h).symm
  · cases h

/-- Moves over spacing, and reports the lines that start in it. -/
def skipSpacing? (r : Reader) : Option Reader :=
  if h : isSpacingByte r.current then
    have := pos_lt_of_isSpacingByte h
    match hnext : r.advance? with
    | none => none
    | some next =>
      have := advance?_eq_some hnext
      skipSpacing? (if r.current = 10 then { next with lines := next.lines.add next.pos } else next)
  else some r
termination_by r.bytes.length - r.pos
decreasing_by
  subst next
  split <;> (change r.bytes.length - (r.pos + 1) < r.bytes.length - r.pos; omega)

end Reader

/-! ## What a search finds -/

theorem encode_eq (cs : List Char) : encode cs = cs.utf8Encode.toList := by
  induction cs with
  | nil => simp [encode, toList_eq]
  | cons c cs ih => rw [toList_utf8Encode_cons, ← ih, encode, encode, List.flatMap_cons]

@[simp] theorem length_encode (cs : List Char) : (encode cs).length = byteLength cs := by
  rw [encode_eq, length_toList, size_utf8Encode]

theorem encode_cons (c : Char) (cs : List Char) :
    encode (c :: cs) = String.utf8EncodeChar c ++ encode cs := List.flatMap_cons

theorem encode_append (cs ds : List Char) : encode (cs ++ ds) = encode cs ++ encode ds :=
  List.flatMap_append

/-- A byte that is a character of its own. -/
def Stands (b : UInt8) (c : Char) : Prop :=
  String.utf8EncodeChar c = [b] ∧ b.toNat < 128 ∧ b ≠ 0

instance (b : UInt8) (c : Char) : Decidable (Stands b c) := inferInstanceAs (Decidable (_ ∧ _))

section
variable {b : UInt8} {c : Char} (h : Stands b c)
include h

theorem Stands.utf8Size : c.utf8Size = 1 := by
  rw [← String.length_utf8EncodeChar, h.1]
  rfl

theorem Stands.mem_iff {d : Char} : b ∈ String.utf8EncodeChar d ↔ d = c := by
  constructor
  · intro hmem
    have hd := eq_of_mem_utf8EncodeChar h.2.1 hmem
    have hc := eq_of_mem_utf8EncodeChar (c := c) h.2.1 (by simp [h.1])
    exact Char.val_inj.1 (UInt32.toNat_inj.1 (hd.trans hc.symm))
  · rintro rfl
    simp [h.1]

/-- The first byte tells whether this character is the first. -/
theorem Stands.head_iff (cs : List Char) : (encode cs)[0]?.getD 0 = b ↔ cs.head? = some c := by
  cases cs with
  | nil => simpa [encode] using h.2.2.symm
  | cons d cs =>
    have hne : String.utf8EncodeChar d ≠ [] := by
      rw [← List.length_pos_iff, String.length_utf8EncodeChar]
      exact d.utf8Size_pos
    obtain ⟨x, xs, hx⟩ := List.exists_cons_of_ne_nil hne
    rw [encode_cons, hx, List.head?_cons, Option.some_inj]
    constructor
    · intro hb
      have hbx : x = b := by simpa using hb
      exact h.mem_iff.1 (by simp [hx, hbx])
    · rintro rfl
      rw [h.1] at hx
      simpa using (List.cons.inj hx).1.symm

end

theorem findByte?_append {b : UInt8} {xs : List UInt8} (h : b ∉ xs) (ys : List UInt8) :
    findByte? b (xs ++ ys) = (findByte? b ys).map (xs.length + ·) := by
  induction xs with
  | nil => simp
  | cons x xs ih =>
    rw [List.mem_cons, not_or] at h
    obtain ⟨hx, hxs⟩ := h
    rw [List.cons_append, findByte?, if_neg (Ne.symm hx), ih hxs, Option.map_map]
    congr 1
    funext n
    simp only [Function.comp_apply, List.length_cons]
    omega

/-- Searching for a byte is searching for its character. -/
theorem findByte?_encode {b : UInt8} {c : Char} (h : Stands b c) (cs : List Char) :
    findByte? b (encode cs) =
      if c ∈ cs then some (byteLength (cs.takeWhile (· != c))) else none := by
  induction cs with
  | nil => rfl
  | cons d cs ih =>
    rw [encode_cons]
    by_cases hd : d = c
    · subst hd
      rw [h.1]
      simp [findByte?]
    · rw [findByte?_append (mt h.mem_iff.1 hd), ih, String.length_utf8EncodeChar]
      by_cases hmem : c ∈ cs <;> simp [hd, hmem, Ne.symm hd]

theorem findPair?_append {a b : UInt8} {xs : List UInt8} (h : a ∉ xs) (ys : List UInt8) :
    findPair? a b (xs ++ ys) = (findPair? a b ys).map (xs.length + ·) := by
  induction xs with
  | nil => simp
  | cons x xs ih =>
    rw [List.mem_cons, not_or] at h
    obtain ⟨hx, hxs⟩ := h
    rw [List.cons_append, findPair?, if_neg (fun hboth => hx hboth.1.symm), ih hxs, Option.map_map]
    congr 1
    funext n
    simp only [Function.comp_apply, List.length_cons]
    omega

/-- Searching for the bytes of a star and a slash is searching for the end of a comment. -/
theorem findPair?_encode (cs : List Char) :
    (findPair? 42 47 (encode cs)).map (· + 2) = (splitComment? cs).map (byteLength ·.1) := by
  have hstar : Stands 42 '*' := by decide
  have hslash : Stands 47 '/' := by decide
  fun_induction splitComment? cs with
  | case1 => rfl
  | case2 cs =>
    rw [encode_cons, encode_cons, hstar.1, hslash.1]
    rfl
  | case3 c cs hend ih =>
    have hshift : findPair? 42 47 (String.utf8EncodeChar c ++ encode cs) =
        (findPair? 42 47 (encode cs)).map (c.utf8Size + ·) := by
      by_cases hc : c = '*'
      · subst hc
        have hnext : (encode cs).head? ≠ some 47 := by
          intro hhead
          have hslash' := (hslash.head_iff cs).1 (by simp [← List.head?_eq_getElem?, hhead])
          obtain ⟨ds, rfl⟩ := List.head?_eq_some_iff.1 hslash'
          exact hend ds rfl rfl
        rw [hstar.1, List.singleton_append, findPair?, if_neg (fun hboth => hnext hboth.2),
          hstar.utf8Size]
        simp [Nat.add_comm]
      · rw [findPair?_append (mt hstar.mem_iff.1 hc), String.length_utf8EncodeChar]
    have hmap := congrArg (Option.map (c.utf8Size + ·)) ih
    rw [encode_cons, hshift]
    simpa [Option.map_map, Function.comp_def, Nat.add_assoc] using hmap

/-- The line feeds of some bytes are where lines start, as long as the offsets have 32
    bits. -/
theorem lineStarts?_eq {start i : Nat} {bs : List UInt8} (h : start + i + bs.length ≤ maxOffset) :
    lineStarts? start i bs = some (byteStarts (start + i) bs) := by
  induction bs generalizing i with
  | nil => rfl
  | cons b bs ih =>
    rw [List.length_cons] at h
    have hrest := ih (i := i + 1) (by omega)
    rw [lineStarts?, hrest, byteStarts, ← Nat.add_assoc]
    by_cases hb : b = 10
    · rw [if_pos hb, if_pos hb, add?_eq (by omega : start + i ≤ maxOffset)]
      simp [add?_eq (by omega : start + i + 1 ≤ maxOffset)]
    · rw [if_neg hb, if_neg hb, List.nil_append]

/-- Reporting the lines of a piece is reporting where they start. -/
theorem addLines_eq_foldl (t : LineTable) (o : Nat) (cs : List Char) :
    t.addLines o cs = (LineTable.startsFrom o cs).foldl LineTable.add t := by
  induction cs generalizing t o with
  | nil => rfl
  | cons c cs ih =>
    rw [LineTable.addLines, ih, LineTable.startsFrom]
    by_cases hc : c = '\n' <;> simp [hc]

/-! ## What a reader does in its place -/

namespace Reader

/-- The reader stands between `read` and `rest`. -/
structure At (r : Reader) (read rest : List Char) : Prop where
  text : r.text = read ++ rest
  pos : r.pos = byteLength read

variable {r : Reader} {read rest : List Char}

/-- The reader behind a piece. -/
def past (r : Reader) (piece : List Char) : Reader := r.moveTo (r.pos + byteLength piece)

/-- The reader behind a piece whose lines have been reported. -/
def passed (r : Reader) (piece : List Char) : Reader :=
  { r.past piece with lines := r.lines.addLines r.pos piece }

@[simp] theorem moveTo_moveTo (m n : Nat) : (r.moveTo m).moveTo n = r.moveTo n := rfl

@[simp] theorem moveTo_pos (n : Nat) : (r.moveTo n).pos = n := rfl

@[simp] theorem past_pos (piece : List Char) : (r.past piece).pos = r.pos + byteLength piece := rfl

@[simp] theorem past_nil : r.past [] = r := rfl

@[simp] theorem past_past (as bs : List Char) : (r.past as).past bs = r.past (as ++ bs) := by
  simp [past, Nat.add_assoc]

@[simp] theorem passed_pos (piece : List Char) : (r.passed piece).pos = r.pos + byteLength piece :=
  rfl

@[simp] theorem passed_nil : r.passed [] = r := rfl

@[simp] theorem passed_passed (as bs : List Char) :
    (r.passed as).passed bs = r.passed (as ++ bs) := by
  simp [passed, past, moveTo, LineTable.addLines_append, Nat.add_assoc]

/-- A piece without line feeds has no lines to report. -/
theorem passed_eq_past {piece : List Char} (h : '\n' ∉ piece) : r.passed piece = r.past piece := by
  induction piece generalizing r with
  | nil => rfl
  | cons c piece ih =>
    rw [List.mem_cons, not_or] at h
    obtain ⟨hc, hpiece⟩ := h
    have hone : r.passed [c] = r.past [c] := by
      simp [passed, past, moveTo, LineTable.addLines, Ne.symm hc]
    rw [← List.singleton_append, ← passed_passed, ← past_past, hone, ih hpiece]

theorem At.past {piece : List Char} (h : r.At read (piece ++ rest)) :
    (r.past piece).At (read ++ piece) rest :=
  ⟨by rw [List.append_assoc]; exact h.text, by rw [byteLength_append, ← h.pos]; rfl⟩

theorem At.passed {piece : List Char} (h : r.At read (piece ++ rest)) :
    (r.passed piece).At (read ++ piece) rest :=
  ⟨h.past.text, h.past.pos⟩

theorem At.pastChar {c : Char} (h : r.At read (c :: rest)) : (r.past [c]).At (read ++ [c]) rest :=
  (show r.At read ([c] ++ rest) from h).past

theorem At.char? (h : r.At read rest) : r.char? = some rest.head? := by
  rw [Reader.char?, h.text, h.pos, slice?_end, Option.map_some]

theorem At.bytesFrom? (h : r.At read rest) : bytesFrom? r.bytes r.pos = some (encode rest) := by
  have hlength : r.pos = (encode read).length := by rw [h.pos, length_encode]
  have hle : r.pos ≤ r.bytes.length := by
    rw [bytes, h.text, encode_append, List.length_append]
    omega
  rw [Checked.bytesFrom?, if_pos hle, bytes, h.text, encode_append, hlength, List.drop_left]

theorem At.byteAt (h : r.At read rest) (k : Nat) :
    r.byteAt (r.pos + k) = (encode rest)[k]?.getD 0 := by
  have hlength : r.pos = (encode read).length := by rw [h.pos, length_encode]
  rw [Reader.byteAt, bytes, h.text, encode_append, hlength, List.getElem?_append_right (by omega),
    Nat.add_sub_cancel_left]

theorem At.current_iff (h : r.At read rest) {b : UInt8} {c : Char} (hb : Stands b c) :
    r.current = b ↔ rest.head? = some c := by
  rw [← hb.head_iff]
  exact (h.byteAt 0) ▸ Iff.rfl

/-- The byte behind an ASCII character. -/
theorem At.peek_iff {d : Char} (h : r.At read (d :: rest)) (hd : d.utf8Size = 1) {b : UInt8}
    {c : Char} (hb : Stands b c) : r.peek = b ↔ rest.head? = some c := by
  rw [← h.pastChar.current_iff hb, Reader.past, byteLength_cons, hd]
  rfl

/-- Behind a piece, the text from where it starts is the piece. -/
theorem At.sliceFrom? {piece : List Char} (h : r.At read (piece ++ rest)) :
    (r.past piece).sliceFrom? r.pos = some piece := by
  rw [Reader.sliceFrom?, h.past.text, past_pos, h.pos]
  exact slice?_append read piece rest

theorem At.advance? {c : Char} (h : r.At read (c :: rest)) {b : UInt8} (hb : Stands b c) :
    r.advance? = some (r.past [c]) := by
  have hcurrent := (h.current_iff hb).2 rfl
  have hascii : r.current < 128 := by
    rw [hcurrent, UInt8.lt_iff_toNat_lt]
    exact hb.2.1
  rw [Reader.advance?, if_pos hascii, Reader.past, byteLength_cons, hb.utf8Size]
  rfl

theorem At.advanceChar? {c : Char} (h : r.At read (c :: rest)) :
    r.advanceChar? = some (r.past [c]) := by
  simp [Reader.advanceChar?, h.char?, Reader.past]

theorem At.pos_add (h : r.At read rest) : byteLength r.text = r.pos + byteLength rest := by
  rw [h.text, h.pos, byteLength_append]

theorem At.advanceBy {piece : List Char} (h : r.At read (piece ++ rest)) :
    r.advanceBy (byteLength piece) = r.past piece := by
  have hlength := h.pos_add
  rw [byteLength_append] at hlength
  rw [Reader.advanceBy, Nat.min_eq_left (by omega), Reader.past]

theorem eatWhile?_of_char? (p : Char → Bool) {c? : Option Char} (h : r.char? = some c?) :
    r.eatWhile? p =
      match c? with
      | none => some r
      | some c => if p c then (r.past [c]).eatWhile? p else some r := by
  rw [Reader.eatWhile?]
  split <;> rename_i hchar <;> rw [h] at hchar <;> cases hchar <;> simp [past]

theorem At.eatWhile? (p : Char → Bool) (h : r.At read rest) :
    r.eatWhile? p = some (r.past (rest.takeWhile p)) := by
  induction rest generalizing r read with
  | nil => exact eatWhile?_of_char? p h.char?
  | cons c rest ih =>
    rw [eatWhile?_of_char? p h.char?]
    by_cases hp : p c = true
    · have hmore := ih h.pastChar
      simpa [hp] using hmore
    · simp [hp]

theorem At.eatLine? (h : r.At read rest) :
    r.eatLine? = some (r.past (rest.takeWhile (· != '\n'))) := by
  have hfeed : Stands 10 '\n' := by decide
  by_cases hmem : '\n' ∈ rest
  · simp [Reader.eatLine?, h.bytesFrom?, findByte?_encode hfeed, hmem, Reader.past]
  · have hother : ∀ c ∈ rest, (c != '\n') = true := by
      rintro c hc
      rw [bne_iff_ne]
      rintro rfl
      exact hmem hc
    have hall := List.takeWhile_eq_self_iff.2 hother
    simp [Reader.eatLine?, h.bytesFrom?, findByte?_encode hfeed, hmem, hall, h.pos_add, Reader.past]

/-- The end of a comment is found. -/
theorem At.eatComment? (h : r.At read rest) :
    r.eatComment? = some (match splitComment? rest with
      | some (body, _) => (true, r.past body)
      | none => (false, r.past rest)) := by
  have hfind := findPair?_encode rest
  cases hsplit : splitComment? rest with
  | none =>
    rw [hsplit, Option.map_none, Option.map_eq_none_iff] at hfind
    simp [Reader.eatComment?, h.bytesFrom?, hfind, h.pos_add, Reader.past]
  | some x =>
    obtain ⟨body, back⟩ := x
    rw [hsplit, Option.map_some] at hfind
    obtain ⟨i, hi, hbody⟩ := Option.map_eq_some_iff.1 hfind
    simp [Reader.eatComment?, h.bytesFrom?, hi, ← hbody, Reader.past]

theorem splitString_front {front : List Char} (h : '\'' ∉ front) (cs : List Char) :
    splitString (front ++ cs) = (front ++ (splitString cs).1, (splitString cs).2) := by
  induction front with
  | nil => rfl
  | cons c front ih =>
    rw [List.mem_cons, not_or] at h
    obtain ⟨hc, hfront⟩ := h
    rw [List.cons_append, splitString, ih hfront]
    · rfl
    · rintro ds rfl
      exact absurd rfl hc
    · rintro rfl
      exact absurd rfl hc

theorem eatString?_of_bytes {remaining : List UInt8}
    (h : bytesFrom? r.bytes r.pos = some remaining) :
    r.eatString? =
      match findByte? 39 remaining with
      | none => some (false, r.moveTo (byteLength r.text))
      | some i =>
        if (r.moveTo (r.pos + i)).peek = 39 then (r.moveTo (r.pos + i + 2)).eatString?
        else some (true, r.moveTo (r.pos + i)) := by
  rw [Reader.eatString?]
  split <;> rename_i hbytes <;> rw [h] at hbytes <;> cases hbytes
  split <;> (rename_i hfind; simp only [hfind])
  rfl

/-- The quote that closes a string is found.  The induction is on what is left: the
    search goes on behind a quote that is written twice. -/
theorem At.eatString? (h : r.At read rest) :
    r.eatString? =
      some (!(splitString rest).2.isEmpty, r.past (splitString rest).1) := by
  have hquote : Stands 39 '\'' := by decide
  generalize hn : rest.length = n
  induction n using Nat.strongRecOn generalizing r read rest with
  | _ n ih =>
    rw [eatString?_of_bytes h.bytesFrom?, findByte?_encode hquote]
    by_cases hmem : '\'' ∈ rest
    · obtain ⟨front, back, rfl, hfront⟩ := List.eq_append_cons_of_mem hmem
      have htake : (front ++ '\'' :: back).takeWhile (· != '\'') = front :=
        (takeWhile_append_stop (p := (· != '\'')) front ('\'' :: back)
          (fun c hc => by simpa using fun heq : c = '\'' => hfront (heq ▸ hc)) (by simp)).1
      have hat : (r.past front).At (read ++ front) ('\'' :: back) := h.past
      have hpeek := hat.peek_iff hquote.utf8Size hquote
      rw [if_pos hmem, htake, splitString_front hfront]
      change (if (r.past front).peek = 39 then
          ((r.past front).moveTo ((r.past front).pos + 2)).eatString?
        else some (true, r.past front)) = _
      cases back with
      | nil =>
        have hne : (r.past front).peek ≠ 39 := mt hpeek.1 (by simp)
        simp [hne, splitString]
      | cons d back =>
        by_cases hd : d = '\''
        · -- a quote that is written twice
          subst hd
          have hmore : ((r.past front).past ['\'', '\'']).At (read ++ front ++ ['\'', '\'']) back :=
            (show (r.past front).At (read ++ front) (['\'', '\''] ++ back) from hat).past
          have htwo : (r.past front).moveTo ((r.past front).pos + 2) =
              (r.past front).past ['\'', '\''] := rfl
          have hsearch := ih _ (by simp at hn; omega) hmore rfl
          rw [if_pos (hpeek.2 rfl), htwo, hsearch]
          simp [splitString]
        · have hne : (r.past front).peek ≠ 39 := mt hpeek.1 (by simpa using hd)
          have hclosed : splitString ('\'' :: d :: back) = ([], '\'' :: d :: back) := by
            rw [splitString]
            rintro ds heq
            exact hd (List.cons.inj heq).1
          simp [hne, hclosed]
    · have hall := splitString_front hmem []
      rw [List.append_nil] at hall
      simp [hmem, hall, splitString, h.pos_add, Reader.past]

/-- Behind a piece, the lines from where it starts are reported. -/
theorem At.markLines? {piece : List Char} (h : r.At read (piece ++ rest))
    (hsize : byteLength r.text ≤ maxOffset) :
    (r.past piece).markLines? r.pos = some (r.passed piece) := by
  have hpiece : bytesBetween? r.bytes r.pos (r.pos + byteLength piece) = some (encode piece) := by
    have hbytes : r.bytes = encode read ++ encode piece ++ encode rest := by
      rw [bytes, h.text, encode_append, encode_append, List.append_assoc]
    have hread : r.pos = (encode read).length := by rw [h.pos, length_encode]
    have hpassed : r.pos + byteLength piece = (encode read ++ encode piece).length := by
      rw [List.length_append, ← hread, length_encode]
    rw [bytesBetween?, if_pos ⟨by omega, by rw [hbytes, List.length_append]; omega⟩, hbytes,
      hpassed, List.take_left, hread, List.drop_left]
  have hlength := h.pos_add
  rw [byteLength_append] at hlength
  have hstarts : lineStarts? r.pos 0 (encode piece) = some (LineTable.startsFrom r.pos piece) := by
    rw [lineStarts?_eq (by rw [length_encode]; omega), LineTable.startsFrom_eq, encode_eq]
    rfl
  have hpast : bytesBetween? (r.past piece).bytes r.pos (r.past piece).pos = some (encode piece) :=
    hpiece
  simp only [Reader.markLines?, hpast, hstarts, Option.bind_eq_bind, Option.bind_some,
    Reader.passed, addLines_eq_foldl]
  rfl

theorem skipSpacing?_of_advance? {next : Reader} (hspacing : isSpacingByte r.current = true)
    (h : r.advance? = some next) :
    r.skipSpacing? = (if r.current = 10 then { next with lines := next.lines.add next.pos }
      else next).skipSpacing? := by
  rw [Reader.skipSpacing?, dif_pos hspacing]
  split <;> rename_i hnext <;> rw [h] at hnext <;> cases hnext
  rfl

theorem skipSpacing?_of_not (h : isSpacingByte r.current = false) : r.skipSpacing? = some r := by
  rw [Reader.skipSpacing?, dif_neg (by simp [h])]

theorem At.isSpacingByte (h : r.At read rest) :
    isSpacingByte r.current = (rest.head?.map isSpacing).getD false := by
  have hspace := h.current_iff (show Stands 32 ' ' by decide)
  have htab := h.current_iff (show Stands 9 '\t' by decide)
  have hreturn := h.current_iff (show Stands 13 '\r' by decide)
  have hfeed := h.current_iff (show Stands 10 '\n' by decide)
  rw [Bool.eq_iff_iff]
  cases rest <;> simp [Reader.isSpacingByte, isSpacing, hspace, htab, hreturn, hfeed]

theorem exists_stands_of_isSpacing {c : Char} (h : isSpacing c = true) : ∃ b, Stands b c := by
  simp only [isSpacing, Bool.or_eq_true, beq_iff_eq] at h
  rcases h with ((rfl | rfl) | rfl) | rfl
  · exact ⟨32, by decide⟩
  · exact ⟨9, by decide⟩
  · exact ⟨13, by decide⟩
  · exact ⟨10, by decide⟩

/-- Spacing is passed, and its lines are reported. -/
theorem At.skipSpacing? (h : r.At read rest) :
    r.skipSpacing? = some (r.passed (rest.takeWhile isSpacing)) := by
  induction rest generalizing r read with
  | nil => exact skipSpacing?_of_not h.isSpacingByte
  | cons c rest ih =>
    by_cases hc : isSpacing c = true
    · obtain ⟨b, hb⟩ := exists_stands_of_isSpacing hc
      have hfeed := h.current_iff (show Stands 10 '\n' by decide)
      have hone : (if r.current = 10 then
          { r.past [c] with lines := (r.past [c]).lines.add (r.past [c]).pos }
          else r.past [c]) = r.passed [c] := by
        by_cases hline : c = '\n'
        · rw [if_pos (hfeed.2 (by rw [hline]; rfl))]
          simp [Reader.passed, Reader.past, Reader.moveTo, LineTable.addLines, hline]
        · rw [if_neg (mt hfeed.1 (by simpa using hline)),
            passed_eq_past (by simpa using Ne.symm hline)]
      have hnext : (r.passed [c]).At (read ++ [c]) rest := ⟨h.pastChar.text, h.pastChar.pos⟩
      rw [skipSpacing?_of_advance? (by rw [h.isSpacingByte]; exact hc) (h.advance? hb), hone,
        ih hnext, passed_passed, List.takeWhile_cons_of_pos hc]
      rfl
    · rw [skipSpacing?_of_not (by rw [h.isSpacingByte]; simpa using hc),
        List.takeWhile_cons_of_neg hc]
      rfl

end Reader

end PackageDoc.Checked
