/-
  No input stops the program.

  `parse?` parses a source with operations that can fail: it refuses what is too large, cuts
  what is well-formed off bytes that are not UTF-8, or else scans the text by its bytes and
  looks up the place of each token, and reads the packages with counters of 32 bits and with
  checked slices of the source.  `pageHtml?` renders a page with checked slices of its texts.

  Main statement: `never_stops`.  On every source whose size has 32 bits, `parse?` gives what
  `parse` does, and `pageHtml?` what `pageHtml` does for every package in there.
-/
import PackageDoc.Proofs.Checked.Html
import PackageDoc.Proofs.Checked.Productions
import PackageDoc.Proofs.Checked.Scanner

namespace PackageDoc.Checked

open Text

/-! ## The program -/

/-- The input that a scan of a text gives. -/
def inputOf (file : String) (text : List Char) (scan : Scan) : Input :=
  let (eof, fault?) := match scan.ending with
    | .ok t => (t, none)
    | .error e => (⟨.eof, "", e.pos, e.pos⟩, some e)
  let (tokens, eof) := attachComments scan.lines scan.tokens eof
  { file, text, lines := scan.lines, tokens, eof, fault? }

/-- Parses the packages of an input. -/
def parseInput? (i : Input) : Option (Logged (Except ParseError SourceFile)) :=
  match i.tokens, i.fault? with
  | [], some e => some ⟨i.endArrival, .error (i.scanError e)⟩
  | ts, _ => do
    let run ← CheckedParser.packages.run i ts
    let start := match ts with
      | [] => i.endArrival
      | t :: _ => i.arrival t
    return ⟨start ++ run.events, run.outcome.map fun (packages, _) => ⟨i.file, packages⟩⟩

/-- Parses the packages of a source. -/
def parse? (file : String) (source : ByteArray) :
    Option (Logged (Except ParseError SourceFile)) :=
  if file.isEmpty then some ⟨[], .error ⟨"", 0, .emptyFileName⟩⟩
  else if maxOffset < source.size then some ⟨[], .error ⟨file, 1, .lexical .tooLarge⟩⟩
  else
    match decode source with
    | .error pos => do
      let line := 1 + (← bytesBetween? source.toList 0 pos).count 10
      return ⟨[], .error ⟨file, line, .lexical .invalidUtf8⟩⟩
    | .ok text => do
      let scan ← Reader.readAll? file ⟨text, 0, .empty⟩
      parseInput? (inputOf file text scan)

/-! ## It does not fail -/

/-- A scan stops where the text can be cut. -/
theorem eof_cut (file : String) (text : List Char) :
    ∃ front back, text = front ++ back ∧
      (Input.ofText file text).eof.span.start = byteLength front := by
  obtain ⟨used, rest, passed, htext, -, hstops⟩ := scans_of_scanText text
  cases hend : (scanText text).ending with
  | ok t =>
    have heof := Input.token_eof_ofText file hend
    rw [hend] at hstops
    cases hstops with
    | eof hgap =>
      refine ⟨used ++ rest, [], by rw [htext, List.append_nil], ?_⟩
      rw [DocToken.span, heof, byteLength_append]
      rfl
  | error e =>
    have heof : (Input.ofText file text).eof.token = ⟨.eof, "", e.pos, e.pos⟩ := by
      simp only [Input.ofText, hend]
      exact token_attachFrom _ _ none [] _
    rw [hend] at hstops
    cases hstops with
    | @fault gap cs piece rest fault hgap hhead hread =>
      refine ⟨used ++ gap, cs, by rw [htext, List.append_assoc], ?_⟩
      rw [DocToken.span, heof, byteLength_append]

theorem fits_ofText (file : String) {text : List Char} (h : byteLength text ≤ maxOffset) :
    Fits (Input.ofText file text) :=
  { Input.scanned_ofText file text with size := h, eof_cut := eof_cut file text }

theorem parseInput?_eq {i : Input} (h : Fits i) : parseInput? i = some i.parse := by
  have hpackages := h.packages i.tokens (List.suffix_refl _)
  unfold parseInput? Input.parse
  cases hts : i.tokens with
  | nil =>
    rw [hts] at hpackages
    cases i.fault? with
    | none => simp [hpackages]
    | some e => rfl
  | cons t ts =>
    rw [hts] at hpackages
    simp [hpackages]

theorem parse?_eq (file : String) {source : ByteArray} (h : source.size ≤ maxOffset) :
    parse? file source = some (parse file source) := by
  unfold parse?
  by_cases hfile : file = ""
  · subst hfile
    rfl
  rw [if_neg (by simpa using hfile), if_neg (Nat.not_lt.2 h)]
  cases hdecode : decode source with
  | error pos =>
    have hlt := (illFormedAt_of_decode hdecode).1
    have hbefore : bytesBetween? source.toList 0 pos = some (source.toList.take pos) := by
      rw [bytesBetween?, if_pos ⟨Nat.zero_le _, by rw [length_toList]; omega⟩, List.drop_zero]
    simp [hbefore, parse_of_error hfile (readSource_of_le h hdecode)]
  | ok text =>
    have htext := decode_eq_ok_iff.1 hdecode
    have hsize : byteLength text ≤ maxOffset := by rwa [htext, size_utf8Encode] at h
    have hparse := parse_of_ok hfile (readSource_eq_ok_iff.2 ⟨h, htext⟩)
    have hscan : Reader.readAll? file ⟨text, 0, .empty⟩ = some (scanText text) :=
      Reader.readAll?_eq file (Scanner.inPlace_ofText text) hsize
    have hinput : inputOf file text (scanText text) = Input.ofText file text := rfl
    simp [hscan, hinput, parseInput?_eq (fits_ofText file hsize), hparse]

/-- **No input stops the program.**  Whatever the name of the file and the bytes of the
    source are, all operations can be done while the source is parsed and while the pages of
    its packages are rendered. -/
theorem never_stops (file : String) {source : ByteArray} (h : source.size ≤ maxOffset) :
    parse? file source = some (parse file source) ∧
      ∀ f, (parse file source).result = .ok f → ∀ p ∈ f.packages, ∀ c,
        pageHtml? p c = some (Html.pageHtml p c) :=
  ⟨parse?_eq file h, fun _ _ p _ c => pageHtml?_eq p c⟩

/-- A source with something to count and to cut: a comment that is not ASCII, a bound in
    parentheses, and a query with a string of two lines. -/
def countedSource : ByteArray :=
  "create package p is\n-- <é>\ntype a is varray((3)) of t;\ncursor c is '\n';\nend;".toUTF8

theorem packages_countedSource :
    (parse "p.pks" countedSource).result.toOption.map (·.packages.length) = some 1 := by
  decide +kernel

theorem never_stops_countedSource :
    countedSource.size ≤ maxOffset ∧
      parse? "p.pks" countedSource = some (parse "p.pks" countedSource) ∧
      ∃ f, (parse "p.pks" countedSource).result = .ok f ∧ ∃ p ∈ f.packages, ∀ c,
        pageHtml? p c = some (Html.pageHtml p c) := by
  have hsize : countedSource.size ≤ maxOffset := by decide +kernel
  obtain ⟨hparse, hpages⟩ := never_stops "p.pks" hsize
  obtain ⟨f, hresult, hcount⟩ := exists_ok_of_toOption packages_countedSource
  obtain ⟨p, hp⟩ := List.length_eq_one_iff.1 hcount
  exact ⟨hsize, hparse, f, hresult, p, by simp [hp], hpages f hresult p (by simp [hp])⟩

end PackageDoc.Checked
