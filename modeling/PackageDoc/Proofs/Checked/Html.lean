/-
  Pages with operations that can fail.

  A text is escaped from its first special character on: it is cut there.  A line of a
  preformatted block is cut behind spaces, which are counted as a difference of lengths.
  Here pages are laid out and rendered with these cuts and differences, and none of them
  fails (`pageHtml?_eq`): whatever a package and a catalog hold, a special character and the
  spaces at the front of a line are found where the text can be cut.
-/
import PackageDoc.Html.Page
import PackageDoc.Proofs.Checked.Basic
import PackageDoc.Proofs.Html.Escape

namespace PackageDoc.Checked

open Text Html

/-! ## Text -/

/-- The offset of the first special character. -/
def firstSpecial? (cs : List Char) : Option Nat :=
  if cs.any (· ∈ specials) then some (byteLength (cs.takeWhile (· ∉ specials))) else none

/-- A text as it stands in HTML. -/
def escape? (s : String) : Option String :=
  match firstSpecial? s.toList with
  | none => some s
  | some first => do
    let front ← slice? s.toList 0 first
    let back ← slice? s.toList first (byteLength s.toList)
    return String.ofList (front ++ back.flatMap escapeChar)

theorem flatMap_escapeChar {cs : List Char} (h : ∀ c ∈ cs, c ∉ specials) :
    cs.flatMap escapeChar = cs := by
  induction cs with
  | nil => rfl
  | cons c cs ih =>
    rw [List.forall_mem_cons] at h
    rw [List.flatMap_cons, escapeChar_of_not_special h.1, ih h.2]
    rfl

/-- A text is escaped if it is so from its first special character on. -/
theorem escape?_eq (s : String) : escape? s = some (escape s) := by
  unfold escape? firstSpecial?
  by_cases hany : s.toList.any (· ∈ specials) = true
  · rw [if_pos hany, escape]
    have hsplit := List.takeWhile_append_dropWhile (p := (· ∉ specials)) (l := s.toList)
    generalize hfront : s.toList.takeWhile (· ∉ specials) = front at hsplit
    generalize s.toList.dropWhile (· ∉ specials) = back at hsplit
    have hplain : ∀ c ∈ front, c ∉ specials := by
      intro c hc
      rw [← hfront] at hc
      simpa using takeWhile_all c hc
    have hbefore : slice? (front ++ back) 0 (byteLength front) = some front := by
      have h := slice?_append [] front back
      rwa [List.nil_append, byteLength_nil, Nat.zero_add] at h
    have hbehind := slice?_end front back
    rw [← hsplit]
    simp only [hbefore, hbehind, Option.bind_eq_bind, Option.bind_some, List.flatMap_append,
      flatMap_escapeChar hplain]
    rfl
  · have hplain : ∀ c ∈ s.toList, c ∉ specials := by simpa using hany
    rw [if_neg hany, escape, flatMap_escapeChar hplain, String.ofList_toList]

/-! ## Rendering -/

/-- An attribute in a start tag. -/
def attributeText? (a : Attribute) : Option String := do
  return " " ++ a.1 ++ "=\"" ++ (← escape? a.2) ++ "\""

/-- A start tag. -/
def startTag? (tag : String) (attributes : List Attribute) : Option String := do
  return "<" ++ tag ++ String.join (← attributes.mapM attributeText?) ++ ">"

mutual

/-- The HTML of a node. -/
def render? : Node → Option String
  | .text s => escape? s
  | .newline => some "\n"
  | .doctype => some "<!DOCTYPE html>"
  | .element tag attributes children => do
    return (← startTag? tag attributes) ++ (← renderAll? children) ++ endTag tag
  | .void tag attributes => startTag? tag attributes

/-- The HTML of some nodes in order. -/
def renderAll? : List Node → Option String
  | [] => some ""
  | n :: ns => do return (← render? n) ++ (← renderAll? ns)

end

theorem mapM_eq_some {α β : Type} {f? : α → Option β} {f : α → β} (h : ∀ a, f? a = some (f a))
    (as : List α) : as.mapM f? = some (as.map f) := by
  have hf : f? = fun a => some (f a) := funext h
  rw [hf]
  exact List.mapM_pure

theorem startTag?_eq (tag : String) (attributes : List Attribute) :
    startTag? tag attributes = some (startTag tag attributes) := by
  have hattribute : ∀ a, attributeText? a = some (Attribute.text a) := by
    intro a
    simp [attributeText?, escape?_eq, Attribute.text]
  simp [startTag?, mapM_eq_some hattribute, startTag]

mutual

theorem render?_eq (n : Node) : render? n = some n.render := by
  cases n with
  | text s => rw [render?, escape?_eq, Node.render]
  | newline => rw [render?, Node.render]
  | doctype => rw [render?, Node.render]
  | element tag attributes children =>
    rw [render?, startTag?_eq, renderAll?_eq, Node.render]
    rfl
  | void tag attributes => rw [render?, startTag?_eq, Node.render]

theorem renderAll?_eq (ns : List Node) : renderAll? ns = some (renderAll ns) := by
  cases ns with
  | nil => rw [renderAll?, renderAll]
  | cons n ns =>
    rw [renderAll?, render?_eq, renderAll?_eq, renderAll]
    rfl

end

/-! ## Doc text -/

/-- The number of spaces at the start of a line. -/
def indent? (line : List Char) : Option Nat :=
  sub? (byteLength line) (byteLength (line.dropWhile (· == ' ')))

/-- A line without the first `n` spaces at its start. -/
def trimSpaces? (line : List Char) (n : Nat) : Option (List Char) := do
  let cut := min (← indent? line) n
  slice? line cut (byteLength line)

/-- The blocks of the lines that follow a draft. -/
def blocksAfter? (base : Nat) : Draft → List (List Char) → Option (List Block)
  | d, [] => some d.close
  | ⟨none, done⟩, l :: ls => do
    if isBlankLine l then
      return Draft.close ⟨none, done⟩ ++ (← blocksAfter? base ⟨none, []⟩ ls)
    else
      let n ← indent? l
      if base < n then
        let line ← trimSpaces? l n
        return Draft.close ⟨none, done⟩ ++ (← blocksAfter? base ⟨some n, [line]⟩ ls)
      else blocksAfter? base ⟨none, trim l :: done⟩ ls
  | ⟨some shift, done⟩, l :: ls => do
    if isBlankLine l then blocksAfter? base ⟨some shift, [] :: done⟩ ls
    else
      let n ← indent? l
      if base < n then
        let line ← trimSpaces? l shift
        blocksAfter? base ⟨some shift, line :: done⟩ ls
      else return Draft.close ⟨some shift, done⟩ ++ (← blocksAfter? base ⟨none, [trim l]⟩ ls)

/-- The indent of the first line that is not blank. -/
def baseIndent? (ls : List (List Char)) : Option Nat :=
  match ls.find? (!isBlankLine ·) with
  | some l => indent? l
  | none => some 0

/-- The elements of a doc text. -/
def docNodes? (text : String) : Option (List Node) := do
  let ls := lines text.toList
  let blocks ← blocksAfter? (← baseIndent? ls) ⟨none, []⟩ ls
  return (blocks.map Block.node).intersperse .newline

theorem byteLength_of_spaces {cs : List Char} (h : ∀ c ∈ cs, c = ' ') :
    byteLength cs = cs.length := by
  induction cs with
  | nil => rfl
  | cons c cs ih =>
    rw [List.forall_mem_cons] at h
    obtain ⟨rfl, hcs⟩ := h
    have hone : ' '.utf8Size = 1 := rfl
    rw [byteLength_cons, ih hcs, hone, List.length_cons, Nat.add_comm]

theorem eq_space_of_mem_takeWhile {line : List Char} :
    ∀ c ∈ line.takeWhile (· == ' '), c = ' ' := by
  intro c hc
  simpa using takeWhile_all c hc

theorem indent?_eq (line : List Char) : indent? line = some (indent line) := by
  have hsplit : line.takeWhile (· == ' ') ++ line.dropWhile (· == ' ') = line :=
    List.takeWhile_append_dropWhile
  have hlength := congrArg byteLength hsplit
  rw [byteLength_append, byteLength_of_spaces eq_space_of_mem_takeWhile] at hlength
  rw [indent?, sub?_eq (by omega), indent]
  congr 1
  omega

/-- A line can be cut behind any of the spaces at its start. -/
theorem trimSpaces?_eq (line : List Char) (n : Nat) :
    trimSpaces? line n = some (line.drop (min (indent line) n)) := by
  generalize hcut : min (indent line) n = cut
  have hle : cut ≤ (line.takeWhile (· == ' ')).length := by
    rw [← hcut]
    exact Nat.min_le_left _ _
  have hsplit : line = line.take cut ++ line.drop cut := (List.take_append_drop cut line).symm
  have hspaces : ∀ c ∈ line.take cut, c = ' ' := by
    intro c hc
    rw [← List.takeWhile_append_dropWhile (p := (· == ' ')) (l := line),
      List.take_append_of_le_length hle] at hc
    exact eq_space_of_mem_takeWhile c (List.mem_of_mem_take hc)
  have hlength : byteLength (line.take cut) = cut := by
    have hline := (List.takeWhile_prefix (· == ' ') (l := line)).length_le
    rw [byteLength_of_spaces hspaces, List.length_take]
    omega
  have hslice := slice?_end (line.take cut) (line.drop cut)
  rw [← hsplit, hlength] at hslice
  simp [trimSpaces?, indent?_eq, hcut, hslice]

theorem blocksAfter?_eq (base : Nat) (d : Draft) (ls : List (List Char)) :
    blocksAfter? base d ls = some (blocksAfter base d ls) := by
  fun_induction blocksAfter base d ls with
  | case1 d => rw [blocksAfter?]
  | case2 done l ls hblank ih => simp [blocksAfter?, hblank, ih]
  | case3 done l ls hblank hdeep ih =>
    simp [blocksAfter?, hblank, indent?_eq, hdeep, trimSpaces?_eq, ih]
  | case4 done l ls hblank hdeep ih => simp [blocksAfter?, hblank, indent?_eq, hdeep, ih]
  | case5 shift done l ls hblank ih => simp [blocksAfter?, hblank, ih]
  | case6 shift done l ls hblank hdeep ih =>
    simp [blocksAfter?, hblank, indent?_eq, hdeep, trimSpaces?_eq, ih]
  | case7 shift done l ls hblank hdeep ih => simp [blocksAfter?, hblank, indent?_eq, hdeep, ih]

theorem docNodes?_eq (text : String) : docNodes? text = some (docNodes text) := by
  have hbase : ∀ ls, baseIndent? ls = some (baseIndent ls) := by
    intro ls
    unfold baseIndent? baseIndent
    cases ls.find? (!isBlankLine ·) <;> simp [indent?_eq]
  simp [docNodes?, hbase, blocksAfter?_eq, docNodes, blocks]

/-! ## Pages -/

/-- The doc of a declaration; nothing if it says nothing. -/
def docBlock? (doc : Option CommentGroup) : Option (List Node) := do
  match ← docNodes? (docText doc) with
  | [] => return []
  | nodes => return block "div" [("class", "doc")] (nodes ++ [.newline])

/-- A declaration. -/
def entryBlock? (e : Entry) : Option (List Node) := do
  let doc ← docBlock? e.doc
  return block "div" [("class", "decl"), ("id", e.anchor)]
    (heading "h3" e.header e.name ++ onLine (label "pre" [("class", "listing")] e.listing) ++ doc)

/-- A section. -/
def sectionBlock? (s : Section) : Option (List Node) := do
  let entries ← s.entries.mapM entryBlock?
  return block "section" [("id", s.id)] (onLine (label "h2" [] s.title) ++ entries.flatten)

/-- The page of a package of a catalog. -/
def page? (p : Package) (c : Catalog) : Option (List Node) := do
  let docTitle := c.description.getD defaultTitle
  let name := p.name.name
  let ss := sections p
  let doc ← docBlock? p.doc
  let blocks ← ss.mapM sectionBlock?
  return onLine .doctype ++
    block "html" [("lang", "en")]
      (pageHead (name ++ " - " ++ docTitle) ++
       block "body" []
         (searchDialog ss ++
          sidebar docTitle (c.packages.map (·.name.name)) name ++
          block "main" [("class", "content")]
            (heading "h1" "package" name ++ doc ++ blocks.flatten) ++
          onLine (.element "script" [("src", "pldoc.js")] [])))

/-- The HTML of the page of a package. -/
def pageHtml? (p : Package) (c : Catalog) : Option String := do renderAll? (← page? p c)

theorem docBlock?_eq (doc : Option CommentGroup) : docBlock? doc = some (docBlock doc) := by
  simp only [docBlock?, docNodes?_eq, docBlock]
  cases docNodes (docText doc) <;> rfl

theorem sectionBlock?_eq (s : Section) : sectionBlock? s = some (sectionBlock s) := by
  have hentry : ∀ e, entryBlock? e = some (entryBlock e) := by
    intro e
    simp [entryBlock?, docBlock?_eq, entryBlock]
  simp [sectionBlock?, mapM_eq_some hentry, sectionBlock, List.flatMap]

/-- **The page of every package is laid out and rendered without fail.** -/
theorem pageHtml?_eq (p : Package) (c : Catalog) : pageHtml? p c = some (pageHtml p c) := by
  have hpage : page? p c = some (page p c) := by
    simp [page?, docBlock?_eq, mapM_eq_some sectionBlock?_eq, page, List.flatMap]
  simp [pageHtml?, hpage, renderAll?_eq, pageHtml]

end PackageDoc.Checked
