/-
  From text to tokens.

  `reading` reads the token at the front of a text that starts with no spacing,
  and splits the text into the piece that makes up the token and the rest.
  `Scanner.scan` skips spacing, reads a token and gives it its span; the lines
  that it passes go into the line table.  At the end of the text it gives an
  end-of-input token, as often as it is asked.  `scanText` scans a whole text,
  and `scanSource` the bytes of one; `readSource` refuses bytes that are no text
  or are too many.

  Nothing is lost (`reading_append`): a piece and the rest make up the text
  again.  So the scanning of a text ends (`Scanner.scan_shrinks`).
-/
import PackageDoc.LineTable
import PackageDoc.Text.Alphabetic
import PackageDoc.Text.Blank
import PackageDoc.Text.LetterCase
import PackageDoc.Text.Utf8
import PackageDoc.Token.Basic

namespace PackageDoc

open Text

/-! ## Words, strings and comments -/

/-- Whether a name can start with the character. -/
def isNameStart (c : Char) : Bool := c == '_' || isAlphabetic c

/-- Whether a name can go on with the character. -/
def isNameChar (c : Char) : Bool := c == '_' || isAlphanumeric c

/-- The lexeme of a word: lowercased if it holds a capital letter. -/
def wordLexeme (word : List Char) : List Char :=
  if word.any isUppercase then lowercase word else word

/-- The kind of the word with the given lexeme. -/
def wordKind (lexeme : String) : TokenKind :=
  match Keyword.ofWord? lexeme with
  | some k => .keyword k
  | none => .ident

/-- Splits a text at the quote that closes a string literal: the text before it
    and the text from the quote on.  A quote that is written twice closes
    nothing; without a closing quote all of the text is in front. -/
def splitString : List Char → List Char × List Char
  | [] => ([], [])
  | '\'' :: '\'' :: cs => let (body, rest) := splitString cs; ('\'' :: '\'' :: body, rest)
  | '\'' :: cs => ([], '\'' :: cs)
  | c :: cs => let (body, rest) := splitString cs; (c :: body, rest)

/-- Splits a text behind the first `*/` in it. -/
def splitComment? : List Char → Option (List Char × List Char)
  | [] => none
  | '*' :: '/' :: cs => some (['*', '/'], cs)
  | c :: cs => (splitComment? cs).map fun (body, rest) => (c :: body, rest)

/-- Removes the carriage returns of a comment.  One that keeps a star from a
    slash behind it stays where `stays` says so: without it the comment would
    seem to end there. -/
def dropReturns (stays : List Char → Bool) (before : List Char) : List Char → List Char
  | [] => before.reverse
  | '\r' :: cs =>
    if stays before && cs.head? == some '/' then dropReturns stays ('\r' :: before) cs
    else dropReturns stays before cs
  | c :: cs => dropReturns stays (c :: before) cs

/-- The lexeme of a line comment. -/
def lineCommentLexeme (cs : List Char) : List Char := cs.filter (· != '\r')

/-- The lexeme of a block comment. -/
def blockCommentLexeme (cs : List Char) : List Char :=
  dropReturns (fun before => 2 < byteLength before && before.head? == some '*') [] cs

/-! ## One token -/

/-- What stands at the front of a text: a token, made up of `piece`, or a fault
    found when `piece` had been read. -/
inductive Reading where
  | token (kind : TokenKind) (lexeme : List Char) (piece rest : List Char)
  | fault (fault : ScanFault) (piece rest : List Char)

/-- The operator at the front of a text, with the number of its characters. -/
def operator? : List Char → Option (Operator × Nat)
  | '|' :: '|' :: _ => some (.concat, 2)
  | '*' :: '*' :: _ => some (.power, 2)
  | '<' :: '>' :: _ => some (.notEqual, 2)
  | '<' :: '=' :: _ => some (.lessEqual, 2)
  | '>' :: '=' :: _ => some (.greaterEqual, 2)
  | '!' :: '=' :: _ => some (.notEqual, 2)
  | ':' :: '=' :: _ => some (.assign, 2)
  | '.' :: '.' :: _ => some (.range, 2)
  | '+' :: _ => some (.plus, 1)
  | '-' :: _ => some (.minus, 1)
  | '*' :: _ => some (.star, 1)
  | '/' :: _ => some (.slash, 1)
  | '%' :: _ => some (.percent, 1)
  | '=' :: _ => some (.equal, 1)
  | '<' :: _ => some (.less, 1)
  | '>' :: _ => some (.greater, 1)
  | '(' :: _ => some (.openParen, 1)
  | ')' :: _ => some (.closeParen, 1)
  | '[' :: _ => some (.openBracket, 1)
  | ']' :: _ => some (.closeBracket, 1)
  | ',' :: _ => some (.comma, 1)
  | '.' :: _ => some (.dot, 1)
  | ';' :: _ => some (.semicolon, 1)
  | ':' :: _ => some (.colon, 1)
  | '"' :: _ => some (.quote, 1)
  | '$' :: _ => some (.dollar, 1)
  | _ => none

/-- Reads the word at the front of a text. -/
def readWord (cs : List Char) : Reading :=
  let piece := cs.takeWhile isNameChar
  let lexeme := wordLexeme piece
  .token (wordKind (String.ofList lexeme)) lexeme piece (cs.dropWhile isNameChar)

/-- Reads the number at the front of a text. -/
def readNumber (cs : List Char) : Reading :=
  let piece := cs.takeWhile Char.isDigit
  .token .number piece piece (cs.dropWhile Char.isDigit)

/-- Reads a string literal whose opening quote is followed by `cs`.  Without a
    closing quote it goes on to the end of the text. -/
def readString (cs : List Char) : Reading :=
  match splitString cs with
  | (body, []) => .token .string body ('\'' :: body) []
  | (body, q :: rest) => .token .string body ('\'' :: body ++ [q]) rest

/-- Reads the line comment at the front of a text, up to the line feed. -/
def readLineComment (cs : List Char) : Reading :=
  let piece := cs.takeWhile (· != '\n')
  .token .comment (lineCommentLexeme piece) piece (cs.dropWhile (· != '\n'))

/-- Reads a block comment whose opening mark is followed by `cs`. -/
def readBlockComment (cs : List Char) : Reading :=
  match splitComment? cs with
  | some (body, rest) =>
    let piece := '/' :: '*' :: body
    .token .comment (blockCommentLexeme piece) piece rest
  | none => .fault .unterminatedComment ('/' :: '*' :: cs) []

/-- Reads the operator at the front of a text, or its first character as an
    illegal one. -/
def readSymbol (cs : List Char) : Reading :=
  match operator? cs with
  | some (o, n) => .token (.op o) (cs.take n) (cs.take n) (cs.drop n)
  | none => .token .illegal (cs.take 1) (cs.take 1) (cs.drop 1)

/-- Reads the token at the front of a text. -/
def reading : List Char → Reading
  | [] => .token .eof [] [] []
  | '\'' :: cs => readString cs
  | '-' :: '-' :: cs => readLineComment ('-' :: '-' :: cs)
  | '/' :: '*' :: cs => readBlockComment cs
  | '|' :: cs =>
    if cs.head? = some '|' then readSymbol ('|' :: cs) else .fault .loneBar [] ('|' :: cs)
  | c :: cs =>
    if isNameStart c then readWord (c :: cs)
    else if c.isDigit then readNumber (c :: cs)
    else readSymbol (c :: cs)

/-! ## Nothing is lost -/

theorem splitString_append (cs : List Char) : (splitString cs).1 ++ (splitString cs).2 = cs := by
  fun_induction splitString cs with
  | case1 => rfl
  | case2 cs body rest h ih => simpa [h] using ih
  | case3 => rfl
  | case4 c cs _ _ body rest h ih => simpa [h] using ih

theorem splitComment?_append {cs body rest : List Char} (h : splitComment? cs = some (body, rest)) :
    body ++ rest = cs := by
  fun_induction splitComment? cs generalizing body rest with
  | case1 => simp at h
  | case2 cs => simp at h; obtain ⟨rfl, rfl⟩ := h; rfl
  | case3 c cs _ ih =>
    obtain ⟨⟨b, r⟩, hb, hr⟩ := Option.map_eq_some_iff.1 h
    simp at hr
    obtain ⟨rfl, rfl⟩ := hr
    simp [ih hb]

/-- The pieces that a reading splits a text into. -/
def Reading.pieces : Reading → List Char × List Char
  | token _ _ piece rest | fault _ piece rest => (piece, rest)

/-- **A reading splits its text**: the piece that it takes and the rest make up
    the text again. -/
theorem reading_append (cs : List Char) : (reading cs).pieces.1 ++ (reading cs).pieces.2 = cs := by
  have hsym : ∀ cs, (readSymbol cs).pieces.1 ++ (readSymbol cs).pieces.2 = cs := fun cs => by
    unfold readSymbol
    split <;> simp only [Reading.pieces, List.take_append_drop]
  unfold reading
  split
  · rfl
  · rename_i cs
    have h := splitString_append cs
    unfold readString
    split <;> simp_all [Reading.pieces]
  · simp only [readLineComment, Reading.pieces, List.takeWhile_append_dropWhile]
  · rename_i cs
    unfold readBlockComment
    split
    · rename_i body rest h
      simp [Reading.pieces, splitComment?_append h]
    · simp [Reading.pieces]
  · split
    · exact hsym _
    · rfl
  · split
    · simp only [readWord, Reading.pieces, List.takeWhile_append_dropWhile]
    · split
      · simp only [readNumber, Reading.pieces, List.takeWhile_append_dropWhile]
      · exact hsym _

/-- A token other than the end of the input takes at least one character. -/
theorem piece_ne_nil {cs : List Char} {kind : TokenKind} {lexeme piece rest : List Char}
    (h : reading cs = .token kind lexeme piece rest) (hk : kind ≠ .eof) : piece ≠ [] := by
  have hop : ∀ cs o n, operator? cs = some (o, n) → n ≠ 0 := fun cs o n h => by
    unfold operator? at h
    split at h <;> grind
  have hsym : ∀ {c cs kind lexeme piece rest},
      readSymbol (c :: cs) = .token kind lexeme piece rest → piece ≠ [] := by
    intro c cs kind lexeme piece rest h
    unfold readSymbol at h
    split at h
    · rename_i o n ho
      have hn := hop _ _ _ ho
      simp only [Reading.token.injEq] at h
      obtain ⟨-, -, rfl, -⟩ := h
      simpa using hn
    · simp only [Reading.token.injEq] at h
      obtain ⟨-, -, rfl, -⟩ := h
      simp
  unfold reading at h
  split at h
  · simp at h; exact absurd h.1.symm hk
  · unfold readString at h
    split at h <;> (simp only [Reading.token.injEq] at h; obtain ⟨-, -, rfl, -⟩ := h; simp)
  · simp only [readLineComment, Reading.token.injEq] at h
    obtain ⟨-, -, rfl, -⟩ := h
    simp
  · unfold readBlockComment at h
    split at h
    · simp only [Reading.token.injEq] at h
      obtain ⟨-, -, rfl, -⟩ := h
      simp
    · simp at h
  · split at h
    · exact hsym h
    · simp at h
  · split at h
    · rename_i c cs _ _ _ _ hc
      simp only [readWord, Reading.token.injEq] at h
      obtain ⟨-, -, rfl, -⟩ := h
      have : isNameChar c = true := by
        simp only [isNameStart, Bool.or_eq_true] at hc
        simp only [isNameChar, isAlphanumeric, Bool.or_eq_true]
        exact hc.imp_right Or.inl
      simp [this]
    · split at h
      · rename_i hd
        simp only [readNumber, Reading.token.injEq] at h
        obtain ⟨-, -, rfl, -⟩ := h
        simp [hd]
      · exact hsym h

/-! ## The scanner -/

/-- A place in a source: what has not been read yet, its offset, and the lines
    that have started before it. -/
structure Scanner where
  rest : List Char
  offset : Nat
  lines : LineTable

namespace Scanner

/-- The scanner at the start of a text. -/
def ofText (text : List Char) : Scanner := ⟨text, 0, .empty⟩

/-- Moves over `piece`, which `rest` follows. -/
def move (s : Scanner) (piece rest : List Char) : Scanner :=
  ⟨rest, s.offset + byteLength piece, s.lines.addLines s.offset piece⟩

/-- Moves over spacing. -/
def skipSpacing (s : Scanner) : Scanner :=
  s.move (s.rest.takeWhile isSpacing) (s.rest.dropWhile isSpacing)

/-- Reads a token where no spacing is in front. -/
def read (s : Scanner) : Except ScanError Token × Scanner :=
  match reading s.rest with
  | .token kind lexeme piece rest =>
    let next := s.move piece rest
    (.ok ⟨kind, String.ofList lexeme, s.offset, next.offset⟩, next)
  | .fault fault piece rest => (.error ⟨fault, s.offset⟩, s.move piece rest)

/-- Reads the next token. -/
def scan (s : Scanner) : Except ScanError Token × Scanner := s.skipSpacing.read

/-- Every token before the end of the input takes something off the text. -/
theorem scan_shrinks (s : Scanner) {t : Token} {next : Scanner} (h : s.scan = (.ok t, next))
    (ht : t.kind ≠ .eof) : next.rest.length < s.rest.length := by
  have hle : s.skipSpacing.rest.length ≤ s.rest.length := (List.dropWhile_suffix _).length_le
  refine Nat.lt_of_lt_of_le ?_ hle
  unfold scan read at h
  split at h
  · rename_i kind lexeme piece rest hr
    simp only [Prod.mk.injEq, Except.ok.injEq] at h
    obtain ⟨rfl, rfl⟩ := h
    have happ := reading_append s.skipSpacing.rest
    have hne := List.length_pos_iff.2 (piece_ne_nil hr ht)
    rw [hr] at happ
    rw [← happ]
    simp only [Reading.pieces, move, List.length_append]
    omega
  · simp at h

end Scanner

/-! ## A whole text -/

/-- The tokens of a text, the end-of-input token or the fault that stopped the
    scanning, and the lines of what was read. -/
structure Scan where
  tokens : List Token
  ending : Except ScanError Token
  lines : LineTable

/-- Scans what is left. -/
def Scanner.scanRest (s : Scanner) : Scan :=
  match h : s.scan with
  | (.error e, next) => ⟨[], .error e, next.lines⟩
  | (.ok t, next) =>
    if ht : t.kind = .eof then ⟨[], .ok t, next.lines⟩
    else
      have := s.scan_shrinks h ht
      let more := next.scanRest
      { more with tokens := t :: more.tokens }
termination_by s.rest.length

/-- Scans a whole text. -/
def scanText (text : List Char) : Scan := (Scanner.ofText text).scanRest

/-- The text of a source, whose offsets have 32 bits. -/
def readSource (source : ByteArray) : Except ScanError (List Char) :=
  if maxOffset < source.size then .error ⟨.tooLarge, 0⟩
  else
    match decode source with
    | .error pos => .error ⟨.invalidUtf8, pos⟩
    | .ok text => .ok text

/-- The tokens of a source and its lines. -/
def scanSource (source : ByteArray) : Except ScanError (List Token × LineTable) :=
  match readSource source with
  | .error e => .error e
  | .ok text =>
    let scan := scanText text
    match scan.ending with
    | .error e => .error e
    | .ok _ => .ok (scan.tokens, scan.lines)

end PackageDoc
