/-
  Scanning by bytes.

  Here a scanner works on a reader, and each of its steps can fail: it cuts lexemes out of
  the text, counts the lines of a string or a comment from where that starts, and looks up
  the place of each token for the log.  A reader that stands in a text fails at none of
  this and reads what `reading` reads (`At.scan?`); so a whole text of at most `maxOffset`
  bytes is scanned, with the tokens and the lines of `scanText` (`readAll?_eq`).
-/
import PackageDoc.Proofs.Checked.Reader

namespace PackageDoc.Checked

open Text

namespace Reader

/-! ## One token -/

/-- A token from an offset up to here. -/
def token (r : Reader) (start : Nat) (kind : TokenKind) (lexeme : List Char) :
    Except ScanError Token × Reader :=
  (.ok ⟨kind, String.ofList lexeme, start, r.pos⟩, r)

/-- Reads a word. -/
def scanWord? (r : Reader) : Option (Except ScanError Token × Reader) := do
  let next ← r.eatWhile? isNameChar
  let lexeme := wordLexeme (← next.sliceFrom? r.pos)
  return next.token r.pos (wordKind (String.ofList lexeme)) lexeme

/-- Reads a number. -/
def scanNumber? (r : Reader) : Option (Except ScanError Token × Reader) := do
  let next ← r.eatWhile? Char.isDigit
  return next.token r.pos .number (← next.sliceFrom? r.pos)

/-- Reads a string from its opening quote on. -/
def scanString? (r : Reader) : Option (Except ScanError Token × Reader) := do
  let body ← r.advance?
  let (closed, quote) ← body.eatString?
  let lexeme ← quote.sliceFrom? body.pos
  let marked ← quote.markLines? body.pos
  let next ← if closed then marked.advance? else some marked
  return next.token r.pos .string lexeme

/-- Reads a line comment. -/
def scanLineComment? (r : Reader) : Option (Except ScanError Token × Reader) := do
  let next ← r.eatLine?
  return next.token r.pos .comment (lineCommentLexeme (← next.sliceFrom? r.pos))

/-- Reads a block comment. -/
def scanBlockComment? (r : Reader) : Option (Except ScanError Token × Reader) := do
  let (closed, next) ← (r.advanceBy 2).eatComment?
  let next ← next.markLines? r.pos
  if closed then return next.token r.pos .comment (blockCommentLexeme (← next.sliceFrom? r.pos))
  else return (.error ⟨.unterminatedComment, r.pos⟩, next)

/-- The operator that a character and the byte behind it make up. -/
def pairAt? (next : UInt8) : Char → Option Operator
  | '|' => if next = 124 then some .concat else none
  | '*' => if next = 42 then some .power else none
  | '<' => if next = 62 then some .notEqual else if next = 61 then some .lessEqual else none
  | '>' => if next = 61 then some .greaterEqual else none
  | '!' => if next = 61 then some .notEqual else none
  | ':' => if next = 61 then some .assign else none
  | '.' => if next = 46 then some .range else none
  | _ => none

/-- The operator that a character makes up with the byte behind it, or else by itself, and
    the number of its bytes. -/
def operatorAt? (next : UInt8) (c : Char) : Option (Operator × Nat) :=
  ((pairAt? next c).map (·, 2)).or (operator? [c])

/-- Reads an operator that starts with `c`, or that character as an illegal one. -/
def scanSymbol? (r : Reader) (c : Char) : Option (Except ScanError Token × Reader) := do
  match operatorAt? r.peek c with
  | some (o, n) =>
    let next := r.advanceBy n
    return next.token r.pos (.op o) (← next.sliceFrom? r.pos)
  | none =>
    let next ← r.advanceChar?
    return next.token r.pos .illegal (← next.sliceFrom? r.pos)

/-- Reads the next token where no spacing is in front. -/
def scanHere? (r : Reader) : Option (Except ScanError Token × Reader) := do
  match ← r.char? with
  | none => return r.token r.pos .eof []
  | some c =>
    if isNameStart c then r.scanWord?
    else if c.isDigit then r.scanNumber?
    else if c = '\'' then r.scanString?
    else if c = '-' ∧ r.peek = 45 then r.scanLineComment?
    else if c = '/' ∧ r.peek = 42 then r.scanBlockComment?
    else if c = '|' ∧ r.peek ≠ 124 then return (.error ⟨.loneBar, r.pos⟩, r)
    else r.scanSymbol? c

/-- Reads the next token. -/
def scan? (r : Reader) : Option (Except ScanError Token × Reader) := do
  (← r.skipSpacing?).scanHere?

/-- Scans what is left, and looks up the place of each token.  At the end of the input it
    scans once more.  A scan that does not move on would not end. -/
def readAll? (file : String) (r : Reader) : Option Scan :=
  match r.scan? with
  | none => none
  | some (.error e, next) => some ⟨[], .error e, next.lines⟩
  | some (.ok t, next) => do
    let _ ← position? next.lines file t.pos
    if t.kind = .eof then
      let _ ← next.scan?
      return ⟨[], .ok t, next.lines⟩
    else if next.bytes.length - next.pos < r.bytes.length - r.pos then
      let more ← readAll? file next
      return { more with tokens := t :: more.tokens }
    else none
termination_by r.bytes.length - r.pos

/-! ## One token in its place -/

/-- What a reading leaves of a reader: the token or the fault, and the reader behind the
    piece. -/
def result (r : Reader) : Reading → Except ScanError Token × Reader
  | .token kind lexeme piece _ => (r.passed piece).token r.pos kind lexeme
  | .fault fault piece _ => (.error ⟨fault, r.pos⟩, r.passed piece)

variable {r : Reader} {read rest : List Char}

theorem not_mem_takeWhile {p : Char → Bool} {c : Char} (h : p c = false) (cs : List Char) :
    c ∉ cs.takeWhile p := by
  intro hc
  have hp := takeWhile_all c hc
  rw [h] at hp
  cases hp

/-- A piece that goes on while its characters are accepted, and no line feed is. -/
theorem At.takeWhile {p : Char → Bool} (h : r.At read rest) (hp : p '\n' = false) :
    (r.past (rest.takeWhile p)).sliceFrom? r.pos = some (rest.takeWhile p) ∧
      r.passed (rest.takeWhile p) = r.past (rest.takeWhile p) := by
  have hsplit : r.At read (rest.takeWhile p ++ rest.dropWhile p) := by
    rwa [List.takeWhile_append_dropWhile]
  exact ⟨hsplit.sliceFrom?, passed_eq_past (not_mem_takeWhile hp rest)⟩

theorem At.scanWord? (h : r.At read rest) :
    r.scanWord? = some (r.result (readWord rest)) := by
  obtain ⟨hslice, hlines⟩ := h.takeWhile (p := isNameChar) (by decide)
  simp [Reader.scanWord?, h.eatWhile?, hslice, result, readWord, hlines]

theorem At.scanNumber? (h : r.At read rest) :
    r.scanNumber? = some (r.result (readNumber rest)) := by
  obtain ⟨hslice, hlines⟩ := h.takeWhile (p := Char.isDigit) (by decide)
  simp [Reader.scanNumber?, h.eatWhile?, hslice, result, readNumber, hlines]

theorem At.scanLineComment? (h : r.At read rest) :
    r.scanLineComment? = some (r.result (readLineComment rest)) := by
  obtain ⟨hslice, hlines⟩ := h.takeWhile (p := (· != '\n')) (by decide)
  simp [Reader.scanLineComment?, h.eatLine?, hslice, result, readLineComment, hlines]

theorem At.scanString? (h : r.At read ('\'' :: rest)) (hsize : byteLength r.text ≤ maxOffset) :
    r.scanString? = some (r.result (readString rest)) := by
  have hquote : Stands 39 '\'' := by decide
  have hopen : r.advance? = some (r.passed ['\'']) := by
    rw [passed_eq_past (by decide), h.advance? hquote]
  have hat : (r.passed ['\'']).At (read ++ ['\'']) rest := ⟨h.pastChar.text, h.pastChar.pos⟩
  have heat := hat.eatString?
  cases hsplit : splitString rest with
  | mk body back =>
    have hbody : (r.passed ['\'']).At (read ++ ['\'']) (body ++ back) := by
      rw [← splitString_append rest, hsplit] at hat
      exact hat
    have hslice := hbody.sliceFrom?
    have hlines := hbody.markLines? hsize
    rw [hsplit] at heat
    simp only [Reader.scanString?, hopen, heat, hslice, hlines, Option.bind_eq_bind,
      Option.bind_some, passed_passed, readString, hsplit]
    cases back with
    | nil => rfl
    | cons q back =>
      obtain rfl := (splitString_snd (by rw [hsplit])).1
      have hstring : (r.passed ('\'' :: body)).At (read ++ '\'' :: body) ('\'' :: back) := by
        have hpassed := hbody.passed
        rwa [passed_passed, List.append_assoc] at hpassed
      have hclose : (r.passed ('\'' :: body)).advance? =
          some (r.passed ('\'' :: body ++ ['\''])) := by
        rw [hstring.advance? hquote, ← passed_eq_past (by decide), passed_passed]
      simp [hclose, result]

theorem At.scanBlockComment? (h : r.At read ('/' :: '*' :: rest))
    (hsize : byteLength r.text ≤ maxOffset) :
    r.scanBlockComment? = some (r.result (readBlockComment rest)) := by
  have hopen : r.At read (['/', '*'] ++ rest) := h
  have hmark : r.advanceBy 2 = r.past ['/', '*'] := hopen.advanceBy
  have hbody := hopen.past
  cases hsplit : splitComment? rest with
  | none =>
    have hall : r.At read ('/' :: '*' :: rest ++ []) := by rwa [List.append_nil]
    simp [Reader.scanBlockComment?, hmark, hbody.eatComment?, hsplit, hall.markLines? hsize,
      readBlockComment, result]
  | some x =>
    obtain ⟨body, back⟩ := x
    have hall : r.At read ('/' :: '*' :: body ++ back) := by
      rw [← splitComment?_append hsplit] at h
      exact h
    have hslice : (r.passed ('/' :: '*' :: body)).sliceFrom? r.pos = some ('/' :: '*' :: body) :=
      hall.sliceFrom?
    simp [Reader.scanBlockComment?, hmark, hbody.eatComment?, hsplit, hall.markLines? hsize, hslice,
      readBlockComment, result]

/-- The byte behind a character tells whether the two make up an operator. -/
theorem At.pairAt? {c : Char} (h : r.At read (c :: rest)) :
    pairAt? r.peek c = rest.head?.bind (pairOperator? c) := by
  have hpeek : ∀ {b d}, Stands b d → c.utf8Size = 1 → (r.peek = b ↔ rest.head? = some d) :=
    fun hb hc => h.peek_iff hc hb
  have hbar := hpeek (show Stands 124 '|' by decide)
  have hstar := hpeek (show Stands 42 '*' by decide)
  have hgreater := hpeek (show Stands 62 '>' by decide)
  have hequal := hpeek (show Stands 61 '=' by decide)
  have hdot := hpeek (show Stands 46 '.' by decide)
  cases rest with
  | nil =>
    unfold Reader.pairAt?
    split
    case h_8 => rfl
    all_goals
      simp only [hbar rfl, hstar rfl, hgreater rfl, hequal rfl, hdot rfl]
      rfl
  | cons d rest =>
    rw [List.head?_cons, Option.bind_some]
    unfold Reader.pairAt?
    split
    · by_cases hd : d = '|' <;> simp [hbar rfl, pairOperator?, hd]
    · by_cases hd : d = '*' <;> simp [hstar rfl, pairOperator?, hd]
    · by_cases hd : d = '>' <;> by_cases hd' : d = '=' <;>
        simp [hgreater rfl, hequal rfl, pairOperator?, hd, hd']
    · by_cases hd : d = '=' <;> simp [hequal rfl, pairOperator?, hd]
    · by_cases hd : d = '=' <;> simp [hequal rfl, pairOperator?, hd]
    · by_cases hd : d = '=' <;> simp [hequal rfl, pairOperator?, hd]
    · by_cases hd : d = '.' <;> simp [hdot rfl, pairOperator?, hd]
    · unfold pairOperator?
      split <;> simp_all

/-- The byte behind a character tells which operator the character makes up. -/
theorem At.operatorAt? {c : Char} (h : r.At read (c :: rest)) :
    operatorAt? r.peek c = operator? (c :: rest) := by
  rw [Reader.operatorAt?, h.pairAt?]
  cases rest with
  | nil => rfl
  | cons d rest => exact (operator?_cons_cons c d rest).symm

/-- The characters of an operator are ASCII and start no line. -/
theorem piece_of_operator? {cs : List Char} {o : Operator} {n : Nat}
    (h : operator? cs = some (o, n)) :
    byteLength (cs.take n) = n ∧ '\n' ∉ cs.take n := by
  unfold operator? at h
  split at h <;> cases h <;> exact ⟨rfl, by simp⟩

theorem At.scanSymbol? {c : Char} (h : r.At read (c :: rest)) (hc : c ≠ '\n') :
    r.scanSymbol? c = some (r.result (readSymbol (c :: rest))) := by
  rw [Reader.scanSymbol?, h.operatorAt?, readSymbol]
  cases hop : operator? (c :: rest) with
  | none =>
    have hslice := (show r.At read ([c] ++ rest) from h).sliceFrom?
    have hlines : r.passed [c] = r.past [c] := passed_eq_past (by simpa using Ne.symm hc)
    simp [h.advanceChar?, hslice, hlines, result]
  | some x =>
    obtain ⟨o, n⟩ := x
    obtain ⟨hlength, hfeed⟩ := piece_of_operator? hop
    have hsplit : r.At read ((c :: rest).take n ++ (c :: rest).drop n) := by
      rwa [List.take_append_drop]
    have hmove := hsplit.advanceBy
    rw [hlength] at hmove
    simp [hmove, hsplit.sliceFrom?, passed_eq_past hfeed, result]

/-- What is read here is read without fail. -/
theorem At.scanHere? (h : r.At read rest) (hsize : byteLength r.text ≤ maxOffset)
    (hhead : ∀ c ∈ rest.head?, isSpacing c = false) :
    r.scanHere? = some (r.result (reading rest)) := by
  cases rest with
  | nil => simp [Reader.scanHere?, h.char?, reading, result]
  | cons c rest =>
    have hpeek : ∀ {b d}, Stands b d → c.utf8Size = 1 → (r.peek = b ↔ rest.head? = some d) :=
      fun hb hc => h.peek_iff hc hb
    have hdash := hpeek (show Stands 45 '-' by decide)
    have hstar := hpeek (show Stands 42 '*' by decide)
    have hbar := hpeek (show Stands 124 '|' by decide)
    have hchar : r.char? = some (some c) := h.char?
    by_cases hquote : c = '\''
    · subst hquote
      have hclass : isNameStart '\'' = false ∧ '\''.isDigit = false := by decide
      simp [Reader.scanHere?, hchar, hclass, h.scanString? hsize, reading]
    by_cases hline : c = '-' ∧ rest.head? = some '-'
    · obtain ⟨rfl, hnext⟩ := hline
      obtain ⟨rest, rfl⟩ := List.head?_eq_some_iff.1 hnext
      have hclass : isNameStart '-' = false ∧ '-'.isDigit = false := by decide
      simp [Reader.scanHere?, hchar, hclass, (hdash rfl).2 rfl, h.scanLineComment?, reading]
    by_cases hblock : c = '/' ∧ rest.head? = some '*'
    · obtain ⟨rfl, hnext⟩ := hblock
      obtain ⟨rest, rfl⟩ := List.head?_eq_some_iff.1 hnext
      have hclass : isNameStart '/' = false ∧ '/'.isDigit = false := by decide
      simp [Reader.scanHere?, hchar, hclass, (hstar rfl).2 rfl, h.scanBlockComment? hsize, reading]
    by_cases hlone : c = '|' ∧ rest.head? ≠ some '|'
    · obtain ⟨rfl, hnext⟩ := hlone
      have hclass : isNameStart '|' = false ∧ '|'.isDigit = false := by decide
      simp [Reader.scanHere?, hchar, hclass, mt (hbar rfl).1 hnext, reading, hnext, result]
    have hbars : c = '|' → rest.head? = some '|' := by
      intro hc
      by_contra hnext
      exact hlone ⟨hc, hnext⟩
    have hfeed : c ≠ '\n' := by
      rintro rfl
      exact absurd (hhead _ rfl) (by decide)
    have hline' : ¬ (c = '-' ∧ r.peek = 45) := by
      rintro ⟨rfl, hnext⟩
      exact hline ⟨rfl, (hdash rfl).1 hnext⟩
    have hblock' : ¬ (c = '/' ∧ r.peek = 42) := by
      rintro ⟨rfl, hnext⟩
      exact hblock ⟨rfl, (hstar rfl).1 hnext⟩
    have hlone' : ¬ (c = '|' ∧ r.peek ≠ 124) := by
      rintro ⟨rfl, hnext⟩
      exact hnext ((hbar rfl).2 (hbars rfl))
    rw [reading_cons hquote hline hblock hbars]
    simp only [Reader.scanHere?, hchar, Option.bind_eq_bind, Option.bind_some, hquote, hline',
      hblock', hlone', if_false, h.scanWord?, h.scanNumber?, h.scanSymbol? hfeed]
    split_ifs <;> rfl

/-- At the end of a text a reader finds the end of the input, as often as it is asked: it
    stays where it is. -/
theorem At.scan?_end (h : r.At read []) : r.scan? = some (r.token r.pos .eof []) := by
  have hhere : r.scanHere? = some (r.token r.pos .eof []) := by
    simp [Reader.scanHere?, h.char?]
  simp [Reader.scan?, h.skipSpacing?, hhere]

/-! ## A whole text -/

/-- The reader where a scanner of a text is. -/
def ofScanner (text : List Char) (s : Scanner) : Reader := ⟨text, s.offset, s.lines⟩

variable {text : List Char} {s : Scanner}

@[simp] theorem ofScanner_lines : (ofScanner text s).lines = s.lines := rfl

theorem at_ofScanner (h : s.InPlace text) : ∃ read, (ofScanner text s).At read s.rest := by
  obtain ⟨read, htext, hoffset, -⟩ := h
  exact ⟨read, htext, hoffset⟩

/-- **A scanner that is in place reads its next token without fail.** -/
theorem scan?_eq (h : s.InPlace text) (hsize : byteLength text ≤ maxOffset) :
    (ofScanner text s).scan? = some (s.scan.1, ofScanner text s.scan.2) := by
  obtain ⟨read, hat⟩ := at_ofScanner h
  obtain ⟨read', hat'⟩ := at_ofScanner h.skipSpacing
  have hskip : (ofScanner text s).skipSpacing? = some (ofScanner text s.skipSpacing) :=
    hat.skipSpacing?
  rw [Reader.scan?, hskip, Option.bind_eq_bind, Option.bind_some,
    hat'.scanHere? hsize (head?_dropWhile_not s.rest)]
  unfold Scanner.scan Scanner.read
  split <;> rename_i hread <;> rw [hread] <;> rfl

/-- A scanner that moves on has less of its text left. -/
theorem byteLength_rest_of_scan {t : Token} {next : Scanner} (h : s.scan = (.ok t, next))
    (ht : t.kind ≠ .eof) : byteLength next.rest < byteLength s.rest := by
  have hshrinks := s.scan_shrinks h ht
  have hsuffix := s.rest_of_scan
  rw [h] at hsuffix
  obtain ⟨front, hfront⟩ := hsuffix
  have hne : front ≠ [] := by
    rintro rfl
    rw [← hfront] at hshrinks
    exact absurd hshrinks (Nat.lt_irrefl _)
  have hpos := byteLength_pos hne
  have hlength := congrArg byteLength hfront
  rw [byteLength_append] at hlength
  change _ + byteLength next.rest = _ at hlength
  omega

theorem byteLength_rest (h : s.InPlace text) :
    (ofScanner text s).bytes.length - (ofScanner text s).pos = byteLength s.rest := by
  obtain ⟨read, hat⟩ := at_ofScanner h
  have hlength := hat.pos_add
  rw [bytes, length_encode, hlength, Nat.add_sub_cancel_left]

/-- **What is left of a text is scanned without fail.** -/
theorem readAll?_eq (file : String) (h : s.InPlace text) (hsize : byteLength text ≤ maxOffset) :
    (ofScanner text s).readAll? file = some s.scanRest := by
  fun_induction Scanner.scanRest s with
  | case1 s e next hs =>
    have hscan := scan?_eq h hsize
    rw [hs] at hscan
    rw [Reader.readAll?, hscan]
    rfl
  | case2 s t next hs ht =>
    have hscan := scan?_eq h hsize
    have hplace := h.scan
    rw [hs] at hscan hplace
    obtain ⟨read, hat⟩ := at_ofScanner hplace
    rw [Scanner.rest_of_eof hs ht] at hat
    rw [Reader.readAll?, hscan]
    simp [position?_eq, ht, hat.scan?_end]
  | case3 s t next hs ht _ more ih =>
    have hscan := scan?_eq h hsize
    have hplace := h.scan
    rw [hs] at hscan hplace
    have hmore : (ofScanner text next).readAll? file = some more := ih hplace
    have hless := byteLength_rest_of_scan hs ht
    rw [← byteLength_rest h, ← byteLength_rest hplace] at hless
    rw [Reader.readAll?, hscan]
    simp [position?_eq, ht, hmore, hless]

end Reader

end PackageDoc.Checked
