/-
  HTML that is read back.

  `pieces?` reads HTML as a row of pieces: characters and tags.  It is strict: a
  character that means something stands as an entity or not at all, and a tag is
  written in one way.  So it reads exactly what pieces are written as
  (`pieces?_eq_some_iff`), and a document that was rendered as the pieces that its
  nodes are made of (`pieces?_renderAll`).  These are nested (`nested_pieces`), and
  `tree?` finds the nodes again (`read?_renderAll`).
-/
import PackageDoc.Html.Node
import PackageDoc.Proofs.Html.Escape
import PackageDoc.Proofs.Token.Reading

namespace PackageDoc.Html

/-! ## Pieces -/

/-- A piece of HTML: a character, or a tag with the names and values of its
    attributes. -/
inductive Piece where
  | char (c : Char)
  | doctype
  | opening (tag : String) (attributes : List Attribute)
  | closing (tag : String)
  deriving DecidableEq, Repr

/-- The declaration of a document behind its first two characters. -/
def doctypeMark : List Char := "DOCTYPE html>".toList

/-- How a piece is written. -/
def Piece.chars : Piece → List Char
  | char c => escapeChar c
  | doctype => '<' :: '!' :: doctypeMark
  | opening tag attributes => (startTag tag attributes).toList
  | closing tag => (endTag tag).toList

def Piece.isTag : Piece → Bool
  | char _ => false
  | doctype | opening _ _ | closing _ => true

/-- Whether the name of a tag can have the character. -/
def isTagChar (c : Char) : Bool := c.isLower || c.isDigit

/-- Whether a text is the name of a tag. -/
def isTagName (s : String) : Bool := !s.toList.isEmpty && s.toList.all isTagChar

/-- Whether a text is the name of an attribute. -/
def isAttributeName (s : String) : Bool := s.toList.all Char.isLower

/-- The names in a tag are names. -/
def Piece.IsProper : Piece → Prop
  | char _ | doctype => True
  | opening tag attributes =>
    isTagName tag = true ∧ ∀ a ∈ attributes, isAttributeName a.1 = true
  | closing tag => isTagName tag = true

/-! ## Reading pieces -/

/-- Reads the value of an attribute up to the quote that ends it. -/
def readValue? (cs : List Char) : Option (String × List Char) :=
  match cs.dropWhile (· != '"') with
  | '"' :: rest => (unescape? (cs.takeWhile (· != '"'))).map fun v => (String.ofList v, rest)
  | _ => none

/-- Reads an attribute behind the space in front of it. -/
def readAttribute? (cs : List Char) : Option (Attribute × List Char) :=
  match cs.dropWhile Char.isLower with
  | '=' :: '"' :: rest =>
    (readValue? rest).map fun (v, rest) => ((String.ofList (cs.takeWhile Char.isLower), v), rest)
  | _ => none

theorem readValue?_eq_some_iff {cs rest : List Char} {v : String} :
    readValue? cs = some (v, rest) ↔ cs = (escape v).toList ++ '"' :: rest := by
  constructor
  · intro h
    unfold readValue? at h
    split at h
    · rename_i tail htail
      obtain ⟨w, hw, heq⟩ := Option.map_eq_some_iff.1 h
      cases heq
      rw [toList_escape, String.toList_ofList, ← unescape?_eq_some_iff.1 hw, ← htail,
        List.takeWhile_append_dropWhile]
    · cases h
  · rintro rfl
    have hquote : '"' ∉ (escape v).toList := not_mem_escape (by decide) (by decide)
    obtain ⟨htake, hdrop⟩ := takeWhile_append_stop (p := (· != '"')) (escape v).toList ('"' :: rest)
      (fun c hc => bne_iff_ne.2 fun heq => hquote (heq ▸ hc)) (by simp)
    rw [readValue?, hdrop, htake, unescape?_eq_some_iff.2 (toList_escape v)]
    simp

theorem toList_attribute (a : Attribute) : a.text.toList =
    ' ' :: (a.1.toList ++ '=' :: '"' :: ((escape a.2).toList ++ ['"'])) := by
  simp [Attribute.text]

theorem readAttribute?_eq_some_iff {cs rest : List Char} {a : Attribute} :
    readAttribute? cs = some (a, rest) ↔
      isAttributeName a.1 = true ∧ ' ' :: cs = a.text.toList ++ rest := by
  have htext : ' ' :: cs = a.text.toList ++ rest ↔
      cs = a.1.toList ++ ('=' :: '"' :: ((escape a.2).toList ++ '"' :: rest)) := by
    simp [toList_attribute]
  rw [htext]
  constructor
  · intro h
    unfold readAttribute? at h
    split at h
    · rename_i tail htail
      obtain ⟨⟨v, rest'⟩, hv, heq⟩ := Option.map_eq_some_iff.1 h
      cases heq
      refine ⟨by simp [isAttributeName], ?_⟩
      rw [← readValue?_eq_some_iff.1 hv, ← htail, String.toList_ofList,
        List.takeWhile_append_dropWhile]
    · cases h
  · rintro ⟨hname, rfl⟩
    obtain ⟨htake, hdrop⟩ := takeWhile_append_stop (p := Char.isLower) a.1.toList
      ('=' :: '"' :: ((escape a.2).toList ++ '"' :: rest)) (List.all_eq_true.1 hname)
      (by rintro _ ⟨⟩; decide)
    have hvalue : readValue? ((escape a.2).toList ++ '"' :: rest) = some (a.2, rest) :=
      readValue?_eq_some_iff.2 rfl
    simp [readAttribute?, hdrop, htake, hvalue]

theorem length_of_readAttribute? {cs rest : List Char} {a : Attribute}
    (h : readAttribute? cs = some (a, rest)) : rest.length < cs.length := by
  have hlength := congrArg List.length (readAttribute?_eq_some_iff.1 h).2
  simp only [toList_attribute, List.length_append, List.length_cons] at hlength
  omega

/-- Reads the attributes of a start tag and the mark that ends it. -/
def readAttributes? (cs : List Char) : Option (List Attribute × List Char) :=
  match cs with
  | '>' :: rest => some ([], rest)
  | ' ' :: rest =>
    match h : readAttribute? rest with
    | some (a, rest') =>
      have := length_of_readAttribute? h
      (readAttributes? rest').map fun (as, rest) => (a :: as, rest)
    | none => none
  | _ => none
termination_by cs.length
decreasing_by
  simp only [List.length_cons]
  omega

/-- Reads an end tag behind its first two characters. -/
def readClosing? (cs : List Char) : Option (Piece × List Char) :=
  let name := String.ofList (cs.takeWhile isTagChar)
  match cs.dropWhile isTagChar with
  | '>' :: rest => if isTagName name then some (.closing name, rest) else none
  | _ => none

/-- Reads a start tag behind its first character. -/
def readOpening? (cs : List Char) : Option (Piece × List Char) :=
  let name := String.ofList (cs.takeWhile isTagChar)
  if isTagName name then
    (readAttributes? (cs.dropWhile isTagChar)).map fun (as, rest) => (.opening name as, rest)
  else none

/-- Reads the piece at the front of a text. -/
def readPiece? : List Char → Option (Piece × List Char)
  | '<' :: '!' :: cs =>
    if doctypeMark <+: cs then some (.doctype, cs.drop doctypeMark.length) else none
  | '<' :: '/' :: cs => readClosing? cs
  | '<' :: cs => readOpening? cs
  | cs => (readChar? cs).map fun (c, rest) => (.char c, rest)

/-! ## Pieces are read as they are written -/

theorem readAttributes?_of_readAttribute? {cs rest : List Char} {a : Attribute}
    (h : readAttribute? cs = some (a, rest)) : readAttributes? (' ' :: cs) =
      (readAttributes? rest).map fun (as, rest) => (a :: as, rest) := by
  rw [readAttributes?]
  split <;> rename_i hread <;> rw [h] at hread <;> cases hread
  rfl

theorem readAttributes?_eq_some_iff {cs rest : List Char} {as : List Attribute} :
    readAttributes? cs = some (as, rest) ↔ (∀ a ∈ as, isAttributeName a.1 = true) ∧
      cs = as.flatMap (fun a => a.text.toList) ++ '>' :: rest := by
  constructor
  · intro h
    fun_induction readAttributes? cs generalizing as with
    | case1 =>
      cases h
      simp
    | case2 rest₁ a rest₂ hread _ ih =>
      obtain ⟨⟨as', rest₃⟩, has, heq⟩ := Option.map_eq_some_iff.1 h
      cases heq
      obtain ⟨hname, htext⟩ := readAttribute?_eq_some_iff.1 hread
      obtain ⟨hnames, htexts⟩ := ih has
      refine ⟨List.forall_mem_cons.2 ⟨hname, hnames⟩, ?_⟩
      rw [htext, htexts, List.flatMap_cons, List.append_assoc]
    | case3 => cases h
    | case4 => cases h
  · rintro ⟨hnames, rfl⟩
    induction as with
    | nil => simp [readAttributes?]
    | cons a as ih =>
      obtain ⟨hname, hnames⟩ := List.forall_mem_cons.1 hnames
      have hread : readAttribute? (a.1.toList ++ '=' :: '"' :: ((escape a.2).toList ++ '"' ::
          (as.flatMap (fun a => a.text.toList) ++ '>' :: rest))) =
          some (a, as.flatMap (fun a => a.text.toList) ++ '>' :: rest) :=
        readAttribute?_eq_some_iff.2 ⟨hname, by simp [toList_attribute]⟩
      rw [List.flatMap_cons, toList_attribute]
      simp only [List.cons_append, List.append_assoc, List.nil_append]
      rw [readAttributes?_of_readAttribute? hread, ih hnames]
      rfl

theorem toList_startTag (tag : String) (as : List Attribute) :
    (startTag tag as).toList =
      '<' :: (tag.toList ++ (as.flatMap (fun a => a.text.toList) ++ ['>'])) := by
  have hjoin : (String.join (as.map Attribute.text)).toList =
      as.flatMap fun a => a.text.toList := by
    simp [String.toList_join, List.flatMap_map]
  simp [startTag, hjoin]

theorem toList_endTag (tag : String) : (endTag tag).toList = '<' :: '/' :: (tag.toList ++ ['>']) := by
  simp [endTag]

theorem isTagName_iff {s : String} :
    isTagName s = true ↔ s.toList ≠ [] ∧ ∀ c ∈ s.toList, isTagChar c = true := by
  simp [isTagName]

theorem readClosing?_eq_some_iff {cs rest : List Char} {x : Piece} :
    readClosing? cs = some (x, rest) ↔
      ∃ tag, x = .closing tag ∧ isTagName tag = true ∧ cs = tag.toList ++ '>' :: rest := by
  constructor
  · intro h
    unfold readClosing? at h
    dsimp only at h
    split at h
    · rename_i tail htail
      split at h
      · rename_i hname
        cases h
        refine ⟨_, rfl, hname, ?_⟩
        rw [← htail, String.toList_ofList, List.takeWhile_append_dropWhile]
      · cases h
    · cases h
  · rintro ⟨tag, rfl, hname, rfl⟩
    obtain ⟨htake, hdrop⟩ := takeWhile_append_stop tag.toList ('>' :: rest)
      (isTagName_iff.1 hname).2 (by rintro _ ⟨⟩; decide)
    simp [readClosing?, htake, hdrop, hname]

theorem readOpening?_eq_some_iff {cs rest : List Char} {x : Piece} :
    readOpening? cs = some (x, rest) ↔
      ∃ tag as, x = .opening tag as ∧ x.IsProper ∧
        cs = tag.toList ++ (as.flatMap (fun a => a.text.toList) ++ '>' :: rest) := by
  constructor
  · intro h
    unfold readOpening? at h
    dsimp only at h
    split at h
    · rename_i hname
      obtain ⟨⟨as, rest'⟩, has, heq⟩ := Option.map_eq_some_iff.1 h
      cases heq
      obtain ⟨hnames, htexts⟩ := readAttributes?_eq_some_iff.1 has
      refine ⟨_, as, rfl, ⟨hname, hnames⟩, ?_⟩
      rw [← htexts, String.toList_ofList, List.takeWhile_append_dropWhile]
    · cases h
  · rintro ⟨tag, as, rfl, ⟨hname, hnames⟩, rfl⟩
    have hstop : ∀ c ∈ (as.flatMap (fun a => a.text.toList) ++ '>' :: rest).head?,
        isTagChar c = false := by
      cases as with
      | nil => rintro _ ⟨⟩; decide
      | cons a as =>
        rw [List.flatMap_cons, toList_attribute]
        rintro _ ⟨⟩
        decide
    obtain ⟨htake, hdrop⟩ := takeWhile_append_stop tag.toList _ (isTagName_iff.1 hname).2 hstop
    have has : readAttributes? (as.flatMap (fun a => a.text.toList) ++ '>' :: rest) =
        some (as, rest) := readAttributes?_eq_some_iff.2 ⟨hnames, rfl⟩
    simp only [readOpening?, htake, hdrop, String.ofList_toList, hname, if_true, has]
    rfl

theorem readPiece?_of_head {cs : List Char} (h : cs.head? ≠ some '<') :
    readPiece? cs = (readChar? cs).map fun (c, rest) => (.char c, rest) := by
  unfold readPiece?
  split <;> simp_all

/-- What starts with the name of a tag is a start tag. -/
theorem readPiece?_of_isTagName {tag : String} (h : isTagName tag = true) (cs : List Char) :
    readPiece? ('<' :: (tag.toList ++ cs)) = readOpening? (tag.toList ++ cs) := by
  obtain ⟨hne, hname⟩ := isTagName_iff.1 h
  obtain ⟨c, name, htag⟩ := List.exists_cons_of_ne_nil hne
  have hc := hname c (by simp [htag])
  have hmark : c ≠ '!' := by rintro rfl; exact absurd hc (by decide)
  have hslash : c ≠ '/' := by rintro rfl; exact absurd hc (by decide)
  rw [htag, List.cons_append]
  unfold readPiece?
  split <;> simp_all

/-- **A piece is read as it is written**, and nothing else is read. -/
theorem readPiece?_eq_some_iff {cs rest : List Char} {x : Piece} :
    readPiece? cs = some (x, rest) ↔ x.IsProper ∧ cs = x.chars ++ rest := by
  constructor
  · intro h
    unfold readPiece? at h
    split at h
    · rename_i cs
      split at h
      · rename_i hprefix
        cases h
        obtain ⟨more, rfl⟩ := hprefix
        exact ⟨trivial, by simp [Piece.chars]⟩
      · cases h
    · obtain ⟨tag, rfl, hname, rfl⟩ := readClosing?_eq_some_iff.1 h
      exact ⟨hname, by simp [Piece.chars, toList_endTag]⟩
    · obtain ⟨tag, as, rfl, hproper, rfl⟩ := readOpening?_eq_some_iff.1 h
      exact ⟨hproper, by simp [Piece.chars, toList_startTag]⟩
    · obtain ⟨⟨c, rest'⟩, hc, heq⟩ := Option.map_eq_some_iff.1 h
      cases heq
      exact ⟨trivial, readChar?_eq_some_iff.1 hc⟩
  · rintro ⟨hproper, rfl⟩
    cases x with
    | char c =>
      have hhead : (escapeChar c ++ rest).head? ≠ some '<' := by
        intro hhead
        obtain ⟨d, ds, hds⟩ := List.exists_cons_of_ne_nil (escapeChar_ne_nil c)
        rw [hds] at hhead
        obtain rfl : d = '<' := by simpa using hhead
        exact not_mem_escapeChar (c := c) (d := '<') (by decide) (by decide) (by rw [hds]; simp)
      rw [Piece.chars, readPiece?_of_head hhead, readChar?_eq_some_iff.2 rfl]
      rfl
    | doctype => simp [Piece.chars, readPiece?]
    | opening tag as =>
      have hread : readOpening? (tag.toList ++ (as.flatMap (fun a => a.text.toList) ++ '>' :: rest))
          = some (.opening tag as, rest) :=
        readOpening?_eq_some_iff.2 ⟨tag, as, rfl, hproper, rfl⟩
      simp only [Piece.chars, toList_startTag, List.cons_append, List.append_assoc, List.nil_append]
      rw [readPiece?_of_isTagName hproper.1, hread]
    | closing tag =>
      have hread : readClosing? (tag.toList ++ '>' :: rest) = some (.closing tag, rest) :=
        readClosing?_eq_some_iff.2 ⟨tag, rfl, hproper, rfl⟩
      simpa [Piece.chars, toList_endTag, readPiece?] using hread

theorem Piece.chars_ne_nil (x : Piece) : x.chars ≠ [] := by
  cases x with
  | char c => exact escapeChar_ne_nil c
  | doctype => decide
  | opening tag as => simp [Piece.chars, toList_startTag]
  | closing tag => simp [Piece.chars, toList_endTag]

theorem length_of_readPiece? {cs rest : List Char} {x : Piece}
    (h : readPiece? cs = some (x, rest)) : rest.length < cs.length := by
  rw [(readPiece?_eq_some_iff.1 h).2, List.length_append]
  have := List.length_pos_iff.2 x.chars_ne_nil
  omega

/-- Reads HTML as pieces. -/
def pieces? (cs : List Char) : Option (List Piece) :=
  if cs.isEmpty then some []
  else
    match h : readPiece? cs with
    | some (x, rest) =>
      have := length_of_readPiece? h
      (pieces? rest).map (x :: ·)
    | none => none
termination_by cs.length

/-- **HTML is read as it is written**: what is read as pieces is what these are
    written as. -/
theorem pieces?_eq_some_iff {cs : List Char} {xs : List Piece} :
    pieces? cs = some xs ↔ (∀ x ∈ xs, x.IsProper) ∧ cs = xs.flatMap Piece.chars := by
  constructor
  · intro h
    fun_induction pieces? cs generalizing xs with
    | case1 cs hnil =>
      cases h
      simpa using hnil
    | case2 cs hne x rest hread _ ih =>
      obtain ⟨xs', hxs', rfl⟩ := Option.map_eq_some_iff.1 h
      obtain ⟨hproper, hcs⟩ := readPiece?_eq_some_iff.1 hread
      obtain ⟨hpropers, hrest⟩ := ih hxs'
      refine ⟨List.forall_mem_cons.2 ⟨hproper, hpropers⟩, ?_⟩
      rw [List.flatMap_cons, ← hrest, hcs]
    | case3 => cases h
  · rintro ⟨hproper, rfl⟩
    induction xs with
    | nil => simp [pieces?]
    | cons x xs ih =>
      obtain ⟨hx, hxs⟩ := List.forall_mem_cons.1 hproper
      have hread : readPiece? (x.chars ++ xs.flatMap Piece.chars) =
          some (x, xs.flatMap Piece.chars) := readPiece?_eq_some_iff.2 ⟨hx, rfl⟩
      rw [List.flatMap_cons, pieces?, if_neg (by simp [x.chars_ne_nil])]
      split <;> rename_i heq <;> rw [hread] at heq <;> cases heq
      rw [ih hxs]
      rfl

/-! ## Nodes and their pieces -/

/-- The elements that have no content and no end tag. -/
def voidTags : List String := ["meta", "link", "input"]

mutual

/-- The pieces of a node. -/
def Node.pieces : Node → List Piece
  | .text s => s.toList.map .char
  | .newline => [.char '\n']
  | .doctype => [.doctype]
  | .element tag attributes children =>
    .opening tag attributes :: (piecesAll children ++ [.closing tag])
  | .void tag attributes => [.opening tag attributes]

/-- The pieces of some nodes in order. -/
def piecesAll : List Node → List Piece
  | [] => []
  | n :: ns => n.pieces ++ piecesAll ns

end

mutual

/-- The names in the tags of a node are names, and just the void elements are
    void. -/
def Node.IsProper : Node → Prop
  | .text _ | .newline | .doctype => True
  | .element tag attributes children =>
    (Piece.opening tag attributes).IsProper ∧ tag ∉ voidTags ∧ AllProper children
  | .void tag attributes => (Piece.opening tag attributes).IsProper ∧ tag ∈ voidTags

def AllProper : List Node → Prop
  | [] => True
  | n :: ns => n.IsProper ∧ AllProper ns

end

mutual

/-- The node with its text character by character. -/
def Node.singles : Node → List Node
  | .text s => s.toList.map fun c => .text (String.singleton c)
  | .newline => [.text "\n"]
  | .doctype => [.doctype]
  | .element tag attributes children => [.element tag attributes (singlesAll children)]
  | .void tag attributes => [.void tag attributes]

/-- Some nodes with their text character by character. -/
def singlesAll : List Node → List Node
  | [] => []
  | n :: ns => n.singles ++ singlesAll ns

end

theorem piecesAll_append (ms ns : List Node) :
    piecesAll (ms ++ ns) = piecesAll ms ++ piecesAll ns := by
  induction ms with
  | nil => rfl
  | cons m ms ih => simp [piecesAll, ih]

theorem renderAll_append (ms ns : List Node) :
    renderAll (ms ++ ns) = renderAll ms ++ renderAll ns := by
  induction ms with
  | nil => simp [renderAll]
  | cons m ms ih => simp [renderAll, ih, String.append_assoc]

mutual

theorem Node.toList_render : ∀ n : Node, n.render.toList = n.pieces.flatMap Piece.chars
  | .text s => by
    rw [Node.render, Node.pieces, toList_escape, List.flatMap_map]
    rfl
  | .newline => by simp [Node.render, Node.pieces, Piece.chars, escapeChar]
  | .doctype => by
    rw [Node.render, Node.pieces, List.flatMap_singleton]
    exact (by decide : "<!DOCTYPE html>".toList = '<' :: '!' :: doctypeMark)
  | .element tag attributes children => by
    simp [Node.render, Node.pieces, Piece.chars, toList_renderAll children]
  | .void tag attributes => by simp [Node.render, Node.pieces, Piece.chars]

/-- Nodes are rendered as their pieces are written. -/
theorem toList_renderAll : ∀ ns : List Node,
    (renderAll ns).toList = (piecesAll ns).flatMap Piece.chars
  | [] => rfl
  | n :: ns => by simp [renderAll, piecesAll, n.toList_render, toList_renderAll ns]

end

mutual

theorem Node.isProper_pieces : ∀ {n : Node}, n.IsProper → ∀ x ∈ n.pieces, x.IsProper
  | .text s, _, x, hx => by
    obtain ⟨c, -, rfl⟩ := List.mem_map.1 hx
    trivial
  | .newline, _, x, hx => by
    rw [List.mem_singleton.1 hx]
    trivial
  | .doctype, _, x, hx => by
    rw [List.mem_singleton.1 hx]
    trivial
  | .element tag attributes children, ⟨hopening, _, hchildren⟩, x, hx => by
    rw [Node.pieces, List.mem_cons, List.mem_append, List.mem_singleton] at hx
    rcases hx with rfl | hx | rfl
    · exact hopening
    · exact isProper_piecesAll hchildren x hx
    · exact hopening.1
  | .void tag attributes, ⟨hopening, _⟩, x, hx => by
    rw [List.mem_singleton.1 hx]
    exact hopening

theorem isProper_piecesAll : ∀ {ns : List Node}, AllProper ns → ∀ x ∈ piecesAll ns, x.IsProper
  | [], _, x, hx => by cases hx
  | n :: ns, ⟨hn, hns⟩, x, hx => by
    rcases List.mem_append.1 hx with hx | hx
    · exact n.isProper_pieces hn x hx
    · exact isProper_piecesAll hns x hx

end

/-- **Rendered nodes are read as their pieces.** -/
theorem pieces?_renderAll {ns : List Node} (h : AllProper ns) :
    pieces? (renderAll ns).toList = some (piecesAll ns) :=
  pieces?_eq_some_iff.2 ⟨isProper_piecesAll h, toList_renderAll ns⟩

/-! ## Nesting -/

/-- Every tag that opens an element has its end tag, and elements lie inside each
    other or behind each other. -/
inductive Nested : List Piece → Prop where
  | nil : Nested []
  | char (c : Char) {xs : List Piece} : Nested xs → Nested (.char c :: xs)
  | doctype {xs : List Piece} : Nested xs → Nested (.doctype :: xs)
  | void {tag : String} (attributes : List Attribute) {xs : List Piece} :
      tag ∈ voidTags → Nested xs → Nested (.opening tag attributes :: xs)
  | element {tag : String} (attributes : List Attribute) {xs ys : List Piece} :
      tag ∉ voidTags → Nested xs → Nested ys →
        Nested (.opening tag attributes :: (xs ++ .closing tag :: ys))

theorem Nested.append {xs ys : List Piece} (hxs : Nested xs) (hys : Nested ys) :
    Nested (xs ++ ys) := by
  induction hxs with
  | nil => exact hys
  | char c _ ih => exact .char c ih
  | doctype _ ih => exact .doctype ih
  | void attributes htag _ ih => exact .void attributes htag ih
  | element attributes htag hinner _ _ ih =>
    rw [List.cons_append, List.append_assoc, List.cons_append]
    exact .element attributes htag hinner ih

mutual

theorem Node.nested_pieces : ∀ {n : Node}, n.IsProper → Nested n.pieces
  | .text s, _ => by
    rw [Node.pieces]
    induction s.toList with
    | nil => exact .nil
    | cons c cs ih => exact .char c ih
  | .newline, _ => .char _ .nil
  | .doctype, _ => .doctype .nil
  | .element _ attributes _, ⟨_, htag, hchildren⟩ =>
    .element attributes htag (nested_piecesAll hchildren) .nil
  | .void _ attributes, ⟨_, htag⟩ => .void attributes htag .nil

/-- The pieces of nodes are nested. -/
theorem nested_piecesAll : ∀ {ns : List Node}, AllProper ns → Nested (piecesAll ns)
  | [], _ => .nil
  | n :: _, ⟨hn, hns⟩ => (n.nested_pieces hn).append (nested_piecesAll hns)

end

/-! ## Reading nodes -/

/-- An element that is being read: its start tag, and the nodes in front of it,
    latest first. -/
structure OpenElement where
  tag : String
  attributes : List Attribute
  before : List Node

/-- Reads pieces as nodes, with the elements that are open, innermost first, and
    the nodes read in the innermost, latest first. -/
def treeFrom? : List OpenElement → List Node → List Piece → Option (List Node)
  | [], done, [] => some done.reverse
  | _ :: _, _, [] => none
  | outer, done, .char c :: xs => treeFrom? outer (.text (String.singleton c) :: done) xs
  | outer, done, .doctype :: xs => treeFrom? outer (.doctype :: done) xs
  | outer, done, .opening tag attributes :: xs =>
    if tag ∈ voidTags then treeFrom? outer (.void tag attributes :: done) xs
    else treeFrom? (⟨tag, attributes, done⟩ :: outer) [] xs
  | [], _, .closing _ :: _ => none
  | e :: outer, done, .closing tag :: xs =>
    if tag = e.tag then treeFrom? outer (.element tag e.attributes done.reverse :: e.before) xs
    else none

/-- Reads HTML as nodes, with text character by character. -/
def read? (html : String) : Option (List Node) := (pieces? html.toList).bind (treeFrom? [] [])

mutual

theorem Node.treeFrom?_pieces : ∀ {n : Node}, n.IsProper → ∀ outer done xs,
    treeFrom? outer done (n.pieces ++ xs) = treeFrom? outer (n.singles.reverse ++ done) xs
  | .text s, _, outer, done, xs => by
    rw [Node.pieces, Node.singles]
    induction s.toList generalizing done with
    | nil => rfl
    | cons c cs ih => simp [treeFrom?, ih]
  | .newline, _, _, _, _ => by simp [Node.pieces, Node.singles, treeFrom?]
  | .doctype, _, _, _, _ => by simp [Node.pieces, Node.singles, treeFrom?]
  | .element tag attributes children, ⟨_, htag, hchildren⟩, outer, done, xs => by
    have hinner := treeFrom?_piecesAll hchildren (⟨tag, attributes, done⟩ :: outer) []
      (.closing tag :: xs)
    simp [Node.pieces, Node.singles, treeFrom?, htag, hinner]
  | .void tag attributes, ⟨_, htag⟩, outer, done, xs => by
    simp [Node.pieces, Node.singles, treeFrom?, htag]

theorem treeFrom?_piecesAll : ∀ {ns : List Node}, AllProper ns → ∀ outer done xs,
    treeFrom? outer done (piecesAll ns ++ xs) =
      treeFrom? outer ((singlesAll ns).reverse ++ done) xs
  | [], _, _, _, _ => rfl
  | n :: ns, ⟨hn, hns⟩, outer, done, xs => by
    rw [piecesAll, List.append_assoc, n.treeFrom?_pieces hn, treeFrom?_piecesAll hns, singlesAll,
      List.reverse_append, List.append_assoc]

end

/-- **A rendered document is read back**, its text character by character. -/
theorem read?_renderAll {ns : List Node} (h : AllProper ns) :
    read? (renderAll ns) = some (singlesAll ns) := by
  have htree := treeFrom?_piecesAll h [] [] []
  rw [List.append_nil, List.append_nil] at htree
  rw [read?, pieces?_renderAll h, Option.bind_some, htree, treeFrom?, List.reverse_reverse]

mutual

theorem Node.renderAll_singles : ∀ n : Node, renderAll n.singles = n.render
  | .text s => by
    suffices h : ∀ cs : List Char,
        (renderAll (cs.map fun c => .text (String.singleton c))).toList = cs.flatMap escapeChar by
      rw [Node.singles, Node.render, ← String.toList_inj, toList_escape]
      exact h s.toList
    intro cs
    induction cs with
    | nil => rfl
    | cons c cs ih => simp [renderAll, Node.render, toList_escape, ih]
  | .newline => by decide
  | .doctype => by simp [Node.singles, renderAll]
  | .element tag attributes children => by
    simp [Node.singles, renderAll, Node.render, renderAll_singlesAll children]
  | .void tag attributes => by simp [Node.singles, renderAll]

/-- Text that is cut into characters is rendered as before. -/
theorem renderAll_singlesAll : ∀ ns : List Node, renderAll (singlesAll ns) = renderAll ns
  | [] => rfl
  | n :: ns => by
    rw [singlesAll, renderAll_append, n.renderAll_singles, renderAll_singlesAll ns, renderAll]

end

end PackageDoc.Html
