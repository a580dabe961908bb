/-
  Pages are well formed, whatever they say.

  A page is made of a fixed set of tags.  What is said in it, be it in a name, a
  listing, a query, a doc or the title, is escaped where it stands: the page is read
  back as its tags and characters (`Document`), these are nested, and no text gets
  into a tag or becomes one.  Which tags there are is decided by the number and the
  kinds of the declarations, by the blocks of the docs and by the packages in the
  sidebar (`PageShape`); the texts have no part in it (`outline_pageHtml`).

  Main statement: `pageHtml_document`.
-/
import PackageDoc.Html.Page
import PackageDoc.Proofs.Html.Anchors
import PackageDoc.Proofs.Html.Reading

namespace PackageDoc.Html

/-! ## The tags of a page -/

/-- The elements of a page that have an end tag. -/
def contentTags : List String :=
  ["html", "head", "title", "body", "div", "a", "span", "nav", "h1", "h2", "h3", "button", "kbd",
    "ul", "li", "main", "section", "pre", "p", "script"]

/-- The attributes in a page. -/
def attributeNames : List String :=
  ["lang", "charset", "name", "content", "rel", "href", "src", "id", "class", "type",
    "placeholder", "autocomplete"]

/-- A tag is one of a page's, with attributes that these have. -/
def Piece.IsOwn : Piece → Prop
  | char _ | doctype => True
  | opening tag attributes =>
    (tag ∈ contentTags ∨ tag ∈ voidTags) ∧ ∀ a ∈ attributes, a.1 ∈ attributeNames
  | closing tag => tag ∈ contentTags

mutual

/-- A node is made of tags of a page. -/
def Node.IsOwn : Node → Prop
  | .text _ | .newline | .doctype => True
  | .element tag attributes children =>
    tag ∈ contentTags ∧ (∀ a ∈ attributes, a.1 ∈ attributeNames) ∧ AllOwn children
  | .void tag attributes => tag ∈ voidTags ∧ ∀ a ∈ attributes, a.1 ∈ attributeNames

def AllOwn : List Node → Prop
  | [] => True
  | n :: ns => n.IsOwn ∧ AllOwn ns

end

@[simp] theorem allOwn_append {ms ns : List Node} : AllOwn (ms ++ ns) ↔ AllOwn ms ∧ AllOwn ns := by
  induction ms with
  | nil => simp [AllOwn]
  | cons m ms ih => simp [AllOwn, ih, and_assoc]

@[simp] theorem allOwn_onLine {n : Node} : AllOwn (onLine n) ↔ n.IsOwn := by
  simp [onLine, AllOwn, Node.IsOwn]

@[simp] theorem allOwn_block {tag : String} {as : List Attribute} {ns : List Node} :
    AllOwn (block tag as ns) ↔
      tag ∈ contentTags ∧ (∀ a ∈ as, a.1 ∈ attributeNames) ∧ AllOwn ns := by
  simp [block, AllOwn, Node.IsOwn]

@[simp] theorem isOwn_label {tag text : String} {as : List Attribute} :
    (label tag as text).IsOwn ↔ tag ∈ contentTags ∧ ∀ a ∈ as, a.1 ∈ attributeNames := by
  simp [label, AllOwn, Node.IsOwn]

theorem allOwn_title (kind name : String) : AllOwn (title kind name) := by
  simp [title, AllOwn, Node.IsOwn, contentTags, attributeNames]

@[simp] theorem allOwn_heading {tag kind name : String} :
    AllOwn (heading tag kind name) ↔ tag ∈ contentTags := by
  simp [heading, Node.IsOwn, allOwn_title]

theorem allOwn_iff {ns : List Node} : AllOwn ns ↔ ∀ n ∈ ns, n.IsOwn := by
  induction ns with
  | nil => simp [AllOwn]
  | cons n ns ih => simp [AllOwn, ih]

theorem allOwn_flatMap {α : Type} {f : α → List Node} {xs : List α} (h : ∀ x ∈ xs, AllOwn (f x)) :
    AllOwn (xs.flatMap f) := by
  rw [allOwn_iff]
  intro n hn
  obtain ⟨x, hx, hn⟩ := List.mem_flatMap.1 hn
  exact allOwn_iff.1 (h x hx) n hn

theorem isTagName_contentTags : ∀ tag ∈ contentTags, isTagName tag = true ∧ tag ∉ voidTags := by
  decide

theorem isTagName_voidTags : ∀ tag ∈ voidTags, isTagName tag = true := by
  decide

theorem isAttributeName_attributeNames : ∀ name ∈ attributeNames, isAttributeName name = true := by
  decide

mutual

theorem Node.IsOwn.isProper : ∀ {n : Node}, n.IsOwn → n.IsProper
  | .text _, _ | .newline, _ | .doctype, _ => trivial
  | .element _ _ _, ⟨htag, hnames, hchildren⟩ =>
    ⟨⟨(isTagName_contentTags _ htag).1, fun a ha => isAttributeName_attributeNames _ (hnames a ha)⟩,
      (isTagName_contentTags _ htag).2, hchildren.allProper⟩
  | .void _ _, ⟨htag, hnames⟩ =>
    ⟨⟨isTagName_voidTags _ htag, fun a ha => isAttributeName_attributeNames _ (hnames a ha)⟩, htag⟩

theorem AllOwn.allProper : ∀ {ns : List Node}, AllOwn ns → AllProper ns
  | [], _ => trivial
  | _ :: _, ⟨hn, hns⟩ => ⟨hn.isProper, hns.allProper⟩

end

mutual

theorem Node.IsOwn.pieces : ∀ {n : Node}, n.IsOwn → ∀ x ∈ n.pieces, x.IsOwn
  | .text _, _, x, hx => by
    obtain ⟨c, -, rfl⟩ := List.mem_map.1 hx
    trivial
  | .newline, _, x, hx | .doctype, _, x, hx => by
    rw [List.mem_singleton.1 hx]
    trivial
  | .element _ _ _, ⟨htag, hnames, hchildren⟩, x, hx => by
    rw [Node.pieces, List.mem_cons, List.mem_append, List.mem_singleton] at hx
    rcases hx with rfl | hx | rfl
    · exact ⟨.inl htag, hnames⟩
    · exact hchildren.pieces x hx
    · exact htag
  | .void _ _, ⟨htag, hnames⟩, x, hx => by
    rw [List.mem_singleton.1 hx]
    exact ⟨.inr htag, hnames⟩

theorem AllOwn.pieces : ∀ {ns : List Node}, AllOwn ns → ∀ x ∈ piecesAll ns, x.IsOwn
  | [], _, x, hx => by cases hx
  | _ :: _, ⟨hn, hns⟩, x, hx => by
    rcases List.mem_append.1 hx with hx | hx
    · exact hn.pieces x hx
    · exact hns.pieces x hx

end

/-! ## The parts of a page -/

theorem mem_intersperse {α : Type} {sep x : α} {xs : List α} (h : x ∈ xs.intersperse sep) :
    x ∈ xs ∨ x = sep := by
  induction xs with
  | nil => cases h
  | cons y ys ih =>
    cases ys with
    | nil => exact .inl h
    | cons z zs =>
      rw [List.intersperse_cons_cons] at h
      rcases List.mem_cons.1 h with rfl | h
      · exact .inl (by simp)
      · rcases List.mem_cons.1 h with rfl | h
        · exact .inr rfl
        · exact (ih h).imp_left (by simp_all)

theorem allOwn_intersperse {ns : List Node} (h : AllOwn ns) :
    AllOwn (ns.intersperse .newline) := by
  rw [allOwn_iff] at h ⊢
  intro n hn
  rcases mem_intersperse hn with hn | rfl
  · exact h n hn
  · trivial

theorem allOwn_lineNodes (ls : List (List Char)) : AllOwn (lineNodes ls) := by
  refine allOwn_intersperse (allOwn_iff.2 fun n hn => ?_)
  obtain ⟨l, -, rfl⟩ := List.mem_map.1 hn
  trivial

theorem allOwn_docNodes (text : String) : AllOwn (docNodes text) := by
  refine allOwn_intersperse (allOwn_iff.2 fun n hn => ?_)
  obtain ⟨b, -, rfl⟩ := List.mem_map.1 hn
  cases b with
  | paragraph ls => exact ⟨by decide, by simp, allOwn_lineNodes ls⟩
  | preformatted ls => exact ⟨by decide, by simp, allOwn_lineNodes ls⟩

theorem allOwn_docBlock (doc : Option CommentGroup) : AllOwn (docBlock doc) := by
  unfold docBlock
  split
  · trivial
  · simp [AllOwn, Node.IsOwn, contentTags, attributeNames, allOwn_docNodes]

theorem allOwn_entryBlock (e : Entry) : AllOwn (entryBlock e) := by
  simp [entryBlock, allOwn_docBlock, contentTags, attributeNames]

theorem allOwn_sectionBlock (s : Section) : AllOwn (sectionBlock s) := by
  have hentries : AllOwn (s.entries.flatMap entryBlock) :=
    allOwn_flatMap fun e _ => allOwn_entryBlock e
  simp [sectionBlock, contentTags, attributeNames, hentries]

theorem allOwn_searchDialog (ss : List Section) : AllOwn (searchDialog ss) := by
  have hlinks : AllOwn ((ss.flatMap (·.entries)).flatMap searchLink) :=
    allOwn_flatMap fun e _ => by
      simp [searchLink, Node.IsOwn, allOwn_title, contentTags, attributeNames]
  simp [searchDialog, Node.IsOwn, contentTags, voidTags, attributeNames, hlinks]

theorem allOwn_sidebar (docTitle : String) (names : List String) (current : String) :
    AllOwn (sidebar docTitle names current) := by
  have hlinks : AllOwn (names.eraseDups.flatMap (packageLink current)) :=
    allOwn_flatMap fun name _ => by
      unfold packageLink
      split <;> simp [AllOwn, Node.IsOwn, contentTags, attributeNames]
  simp [sidebar, AllOwn, Node.IsOwn, contentTags, attributeNames, hlinks]

/-- **A page is made of its own tags.** -/
theorem allOwn_page (p : Package) (c : Catalog) : AllOwn (page p c) := by
  have hsections : AllOwn ((sections p).flatMap sectionBlock) :=
    allOwn_flatMap fun s _ => allOwn_sectionBlock s
  simp [page, pageHead, AllOwn, Node.IsOwn, contentTags, voidTags, attributeNames, allOwn_docBlock,
    allOwn_searchDialog, allOwn_sidebar, hsections]

/-! ## Characters that mean something -/

theorem not_mem_of_isTagName {tag : String} (h : isTagName tag = true) {c : Char}
    (hc : isTagChar c = false) : c ∉ tag.toList := by
  intro hmem
  rw [(isTagName_iff.1 h).2 c hmem] at hc
  cases hc

theorem not_mem_of_isAttributeName {name : String} (h : isAttributeName name = true) {c : Char}
    (hc : c.isLower = false) : c ∉ name.toList := by
  intro hmem
  rw [List.all_eq_true.1 h c hmem] at hc
  cases hc

/-- The attributes of a tag hold no mark that starts or ends a tag. -/
theorem not_mem_attributes {as : List Attribute}
    (h : ∀ a ∈ as, isAttributeName a.1 = true) {c : Char} (hc : c = '<' ∨ c = '>') :
    c ∉ as.flatMap fun a => a.text.toList := by
  rw [List.mem_flatMap]
  rintro ⟨a, ha, hmem⟩
  have hname : c ∉ a.1.toList :=
    not_mem_of_isAttributeName (h a ha) (by rcases hc with rfl | rfl <;> decide)
  have hvalue : c ∉ (escape a.2).toList := by
    rcases hc with rfl | rfl <;> exact not_mem_escape (by decide) (by decide)
  rw [toList_attribute] at hmem
  rcases hc with rfl | rfl <;> simp_all

theorem count_chars {x : Piece} (h : x.IsProper) {c : Char} (hc : c = '<' ∨ c = '>') :
    x.chars.count c = if x.isTag then 1 else 0 := by
  cases x with
  | char d =>
    have hd : c ∉ escapeChar d := by
      rcases hc with rfl | rfl <;> exact not_mem_escapeChar (by decide) (by decide)
    exact List.count_eq_zero.2 hd
  | doctype => rcases hc with rfl | rfl <;> decide
  | opening tag as =>
    have htag : c ∉ tag.toList :=
      not_mem_of_isTagName h.1 (by rcases hc with rfl | rfl <;> decide)
    have has := not_mem_attributes h.2 hc
    rw [Piece.chars, toList_startTag]
    rcases hc with rfl | rfl <;>
      simp [List.count_eq_zero.2 htag, List.count_eq_zero.2 has, Piece.isTag]
  | closing tag =>
    have htag : c ∉ tag.toList :=
      not_mem_of_isTagName h (by rcases hc with rfl | rfl <;> decide)
    rw [Piece.chars, toList_endTag]
    rcases hc with rfl | rfl <;> simp [List.count_eq_zero.2 htag, Piece.isTag]

theorem count_flatMap_chars {xs : List Piece} (h : ∀ x ∈ xs, x.IsProper) {c : Char}
    (hc : c = '<' ∨ c = '>') : (xs.flatMap Piece.chars).count c = xs.countP Piece.isTag := by
  induction xs with
  | nil => rfl
  | cons x xs ih =>
    obtain ⟨hx, hxs⟩ := List.forall_mem_cons.1 h
    rw [List.flatMap_cons, List.count_append, count_chars hx hc, ih hxs, List.countP_cons,
      Nat.add_comm]

theorem entitiesOnly_chars {x : Piece} (h : x.IsProper) : EntitiesOnly x.chars := by
  cases x with
  | char c => exact .escapeChar c
  | doctype => exact .of_not_mem (by decide)
  | opening tag as =>
    have htag : EntitiesOnly tag.toList := .of_not_mem (not_mem_of_isTagName h.1 (by decide))
    have has : EntitiesOnly (as.flatMap fun a => a.text.toList) := by
      refine .flatMap fun a ha => ?_
      have hname : EntitiesOnly a.1.toList :=
        .of_not_mem (not_mem_of_isAttributeName (h.2 a ha) (by decide))
      rw [show a.text.toList =
          [' '] ++ (a.1.toList ++ (['=', '"'] ++ ((escape a.2).toList ++ ['"'])))
        by simp [toList_attribute]]
      exact .append (.of_not_mem (by decide)) (.append hname (.append (.of_not_mem (by decide))
        (.append (entitiesOnly_escape a.2) (.of_not_mem (by decide)))))
    rw [show (Piece.opening tag as).chars =
        ['<'] ++ (tag.toList ++ ((as.flatMap fun a => a.text.toList) ++ ['>']))
      by simp [Piece.chars, toList_startTag]]
    exact .append (.of_not_mem (by decide)) (.append htag (.append has (.of_not_mem (by decide))))
  | closing tag =>
    refine .of_not_mem ?_
    have htag := not_mem_of_isTagName h (c := '&') (by decide)
    simp [Piece.chars, toList_endTag, htag]

/-! ## Documents -/

/-- The HTML is a document that consists of these pieces. -/
structure Document (html : String) (xs : List Piece) : Prop where
  read : pieces? html.toList = some xs
  written : html.toList = xs.flatMap Piece.chars
  own : ∀ x ∈ xs, x.IsOwn
  nested : Nested xs
  /-- the marks of tags do not occur but in tags, each of which has one of a sort -/
  marks : html.toList.count '<' = xs.countP Piece.isTag ∧
    html.toList.count '>' = xs.countP Piece.isTag
  /-- values as they are written -/
  values : ∀ tag as, Piece.opening tag as ∈ xs → ∀ a ∈ as, ∀ c ∈ (escape a.2).toList,
    c ≠ '<' ∧ c ≠ '>' ∧ c ≠ '"'
  entities : EntitiesOnly html.toList

theorem document_renderAll {ns : List Node} (h : AllOwn ns) :
    Document (renderAll ns) (piecesAll ns) := by
  have hproper := isProper_piecesAll h.allProper
  have hwritten := toList_renderAll ns
  constructor
  case read => exact pieces?_renderAll h.allProper
  case written => exact hwritten
  case own => exact h.pieces
  case nested => exact nested_piecesAll h.allProper
  case marks =>
    rw [hwritten]
    exact ⟨count_flatMap_chars hproper (.inl rfl), count_flatMap_chars hproper (.inr rfl)⟩
  case values =>
    intro tag as _ a _ c hc
    refine ⟨?_, ?_, ?_⟩ <;> rintro rfl <;>
      exact not_mem_escape (by decide) (by decide) hc
  case entities =>
    rw [hwritten]
    exact .flatMap fun x hx => entitiesOnly_chars (hproper x hx)

/-! ## Outlines -/

/-- A tag without the values of its attributes. -/
inductive TagOutline where
  | doctype
  | opening (tag : String) (attributes : List String)
  | closing (tag : String)
  deriving DecidableEq, Repr

/-- A piece without the values of attributes, if it is a tag. -/
def Piece.outline? : Piece → Option TagOutline
  | char _ => none
  | doctype => some .doctype
  | opening tag attributes => some (.opening tag (attributes.map (·.1)))
  | closing tag => some (.closing tag)

/-- The tags of a document in order, without the values of their attributes. -/
def outline? (html : String) : Option (List TagOutline) :=
  (pieces? html.toList).map (·.filterMap Piece.outline?)

/-- The tags of nodes. -/
def outlineAll (ns : List Node) : List TagOutline := (piecesAll ns).filterMap Piece.outline?

/-- An element around other tags. -/
def within (tag : String) (attributes : List String) (inner : List TagOutline) :
    List TagOutline :=
  .opening tag attributes :: (inner ++ [.closing tag])

@[simp] theorem outlineAll_nil : outlineAll [] = [] := rfl

@[simp] theorem outlineAll_append (ms ns : List Node) :
    outlineAll (ms ++ ns) = outlineAll ms ++ outlineAll ns := by
  simp [outlineAll, piecesAll_append]

@[simp] theorem outlineAll_text (s : String) (ns : List Node) :
    outlineAll (.text s :: ns) = outlineAll ns := by
  simp [outlineAll, piecesAll, Node.pieces, List.filterMap_map, Piece.outline?]

@[simp] theorem outlineAll_newline (ns : List Node) :
    outlineAll (.newline :: ns) = outlineAll ns := rfl

@[simp] theorem outlineAll_doctype (ns : List Node) :
    outlineAll (.doctype :: ns) = .doctype :: outlineAll ns := rfl

@[simp] theorem outlineAll_void (tag : String) (as : List Attribute) (ns : List Node) :
    outlineAll (.void tag as :: ns) = .opening tag (as.map (·.1)) :: outlineAll ns := rfl

@[simp] theorem outlineAll_element (tag : String) (as : List Attribute) (children ns : List Node) :
    outlineAll (.element tag as children :: ns) =
      within tag (as.map (·.1)) (outlineAll children) ++ outlineAll ns := by
  simp [outlineAll, piecesAll, Node.pieces, within, Piece.outline?]

@[simp] theorem outlineAll_flatMap {α : Type} (f : α → List Node) (xs : List α) :
    outlineAll (xs.flatMap f) = xs.flatMap fun x => outlineAll (f x) := by
  induction xs with
  | nil => rfl
  | cons x xs ih => simp [ih]

@[simp] theorem outlineAll_onLine (n : Node) : outlineAll (onLine n) = outlineAll [n] := by
  simp [onLine, outlineAll, piecesAll, Node.pieces, Piece.outline?]

@[simp] theorem outlineAll_block (tag : String) (as : List Attribute) (children : List Node) :
    outlineAll (block tag as children) = within tag (as.map (·.1)) (outlineAll children) := by
  simp [block]

theorem outlineAll_intersperse (ns : List Node) :
    outlineAll (ns.intersperse .newline) = ns.flatMap fun n => outlineAll [n] := by
  induction ns with
  | nil => rfl
  | cons n ns ih =>
    cases ns with
    | nil => simp
    | cons m ms =>
      rw [List.intersperse_cons_cons, List.flatMap_cons, ← ih]
      exact outlineAll_append [n] (.newline :: _)

/-! ## The shape of a page -/

/-- The tag of a block of a doc. -/
def Block.tag : Block → String
  | paragraph _ => "p"
  | preformatted _ => "pre"

/-- The tags of the blocks of a doc. -/
def docShape (doc : Option CommentGroup) : List String := (blocks (docText doc)).map Block.tag

/-- What decides on the tags of a page. -/
structure PageShape where
  /-- the blocks of the package's doc -/
  doc : List String
  /-- for each sort of declarations, their kinds and the blocks of their docs -/
  declarations : List (List (String × List String))
  /-- for each package of the sidebar, whether it is the one of the page -/
  sidebar : List Bool
  deriving DecidableEq, Repr

/-- The shape of the page of a package. -/
def pageShape (p : Package) (c : Catalog) : PageShape where
  doc := docShape p.doc
  declarations :=
    [p.types.map fun t => (t.header, docShape t.doc),
     p.subtypes.map fun s => (Subtype.header, docShape s.doc),
     p.fields.map fun f => (f.kind.header, docShape f.doc),
     p.cursors.map fun c => (Cursor.header, docShape c.doc),
     p.routines.map fun r => (r.header, docShape r.doc)]
  sidebar := (c.packages.map (·.name.name)).eraseDups.map (· = p.name.name)

/-- The tags of a doc. -/
def docOutline (tags : List String) : List TagOutline :=
  if tags.isEmpty then [] else within "div" ["class"] (tags.flatMap (within · [] []))

/-- The tags of a heading. -/
def headingOutline (tag : String) : List TagOutline := within tag [] (within "span" ["class"] [])

/-- The tags of a declaration. -/
def entryOutline (doc : List String) : List TagOutline :=
  within "div" ["class", "id"] (headingOutline "h3" ++ within "pre" ["class"] [] ++ docOutline doc)

/-- The tags of a section with declarations that have these docs. -/
def sectionOutline (docs : List (List String)) : List TagOutline :=
  within "section" ["id"] (within "h2" [] [] ++ docs.flatMap entryOutline)

/-- The tags of the search dialog. -/
def dialogOutline (links : Nat) : List TagOutline :=
  within "div" ["id", "class"]
    (within "div" ["class"]
      (.opening "input" ["id", "type", "placeholder", "autocomplete"] ::
        within "div" ["id", "class"]
          ((List.replicate links (within "a" ["href"] (within "span" ["class"] []))).flatten)))

/-- The tags of the sidebar. -/
def sidebarOutline (current : List Bool) : List TagOutline :=
  within "nav" ["class"]
    (within "h2" [] [] ++ within "button" ["id", "type"] (within "kbd" [] []) ++
      within "ul" ["class"]
        (current.flatMap fun b =>
          within "li" [] (within "a" (if b then ["class", "href"] else ["href"]) [])))

/-- The tags of a page. -/
def PageShape.outline (s : PageShape) : List TagOutline :=
  let docs := (s.declarations.filter (!·.isEmpty)).map (·.map (·.2))
  .doctype :: within "html" ["lang"]
    (within "head" []
      (.opening "meta" ["charset"] :: .opening "meta" ["name", "content"] ::
        (within "title" [] [] ++ [.opening "link" ["rel", "href"]])) ++
     within "body" []
      (dialogOutline docs.flatten.length ++ sidebarOutline s.sidebar ++
       within "main" ["class"]
        (headingOutline "h1" ++ docOutline s.doc ++ docs.flatMap sectionOutline) ++
       within "script" ["src"] []))

theorem outlineAll_lineNodes (ls : List (List Char)) : outlineAll (lineNodes ls) = [] := by
  rw [lineNodes, outlineAll_intersperse, List.flatMap_map]
  exact List.flatMap_eq_nil_iff.2 fun l _ => by simp

theorem outlineAll_docNodes (text : String) :
    outlineAll (docNodes text) = (blocks text).flatMap fun b => within b.tag [] [] := by
  rw [docNodes, outlineAll_intersperse, List.flatMap_map]
  congr 1
  funext b
  cases b <;> simp [Block.node, Block.tag, outlineAll_lineNodes]

theorem docNodes_eq_nil_iff {text : String} : docNodes text = [] ↔ blocks text = [] := by
  unfold docNodes
  rcases blocks text with - | ⟨b, - | ⟨b', bs⟩⟩ <;> simp

theorem outlineAll_docBlock (doc : Option CommentGroup) :
    outlineAll (docBlock doc) = docOutline (docShape doc) := by
  have htags := outlineAll_docNodes (docText doc)
  unfold docBlock docOutline docShape
  split
  · rename_i hnil
    simp [docNodes_eq_nil_iff.1 hnil]
  · rename_i hne
    rw [if_neg (by simpa using mt docNodes_eq_nil_iff.2 hne)]
    simp [htags, List.flatMap_map]

theorem outlineAll_heading (tag kind name : String) :
    outlineAll (heading tag kind name) = headingOutline tag := by
  simp [heading, title, label, headingOutline]

theorem outlineAll_entryBlock (e : Entry) :
    outlineAll (entryBlock e) = entryOutline (docShape e.doc) := by
  simp [entryBlock, entryOutline, outlineAll_heading, outlineAll_docBlock, label]

theorem outlineAll_sectionBlock (s : Section) :
    outlineAll (sectionBlock s) = sectionOutline (s.entries.map (docShape ·.doc)) := by
  simp [sectionBlock, sectionOutline, outlineAll_entryBlock, label, List.flatMap_map]

theorem outlineAll_searchDialog (ss : List Section) :
    outlineAll (searchDialog ss) = dialogOutline (ss.flatMap (·.entries)).length := by
  have hlink : ∀ e, outlineAll (searchLink e) =
      within "a" ["href"] (within "span" ["class"] []) := by
    intro e
    simp [searchLink, title, label]
  have hlinks : ∀ es : List Entry, outlineAll (es.flatMap searchLink) =
      (List.replicate es.length (within "a" ["href"] (within "span" ["class"] []))).flatten := by
    intro es
    rw [outlineAll_flatMap, ← List.map_const', ← List.flatMap_def]
    simp only [hlink]
  rw [searchDialog, outlineAll_block, outlineAll_block, outlineAll_append, outlineAll_onLine,
    outlineAll_void, outlineAll_block, hlinks]
  rfl

theorem outlineAll_sidebar (docTitle : String) (names : List String) (current : String) :
    outlineAll (sidebar docTitle names current) =
      sidebarOutline (names.eraseDups.map (· = current)) := by
  have hlink : ∀ name, outlineAll (packageLink current name) =
      within "li" [] (within "a" (if name = current then ["class", "href"] else ["href"]) []) := by
    intro name
    by_cases h : name = current <;> simp [packageLink, label, h]
  simp [sidebar, sidebarOutline, hlink, label, List.flatMap_map]

/-- The docs of the declarations of each section. -/
theorem sections_docs (p : Package) (c : Catalog) :
    (sections p).map (fun s => s.entries.map fun e => docShape e.doc) =
      ((pageShape p c).declarations.filter (!·.isEmpty)).map (·.map (·.2)) := by
  have hdeclarations : (pageShape p c).declarations =
      (summaries p).map fun s => s.2.2.map fun d => (d.header, docShape d.doc) := by
    simp [pageShape, summaries]
  have hview := congrArg (List.map fun s => s.2.2.map fun d => docShape d.doc) (sections_view p)
  rw [List.map_map] at hview
  rw [hdeclarations, List.filter_map, List.map_map]
  simpa [Function.comp_def, Section.view] using hview

/-- The shape decides on the tags. -/
theorem outlineAll_page (p : Package) (c : Catalog) :
    outlineAll (page p c) = (pageShape p c).outline := by
  have hdocs := sections_docs p c
  have hlinks : ((sections p).flatMap (·.entries)).length =
      ((sections p).map fun s => s.entries.map fun e => docShape e.doc).flatten.length := by
    simp [List.length_flatMap, List.length_flatten, Function.comp_def]
  have hsections : (sections p).flatMap (fun s => outlineAll (sectionBlock s)) =
      ((sections p).map fun s => s.entries.map fun e => docShape e.doc).flatMap sectionOutline := by
    simp [outlineAll_sectionBlock, List.flatMap_map]
  rw [hdocs] at hlinks hsections
  simp [page, pageHead, PageShape.outline, label, outlineAll_searchDialog, outlineAll_sidebar,
    outlineAll_heading, outlineAll_docBlock, hlinks, hsections, pageShape]

theorem outline_pageHtml (p : Package) (c : Catalog) :
    outline? (pageHtml p c) = some (pageShape p c).outline := by
  rw [outline?, pageHtml, pieces?_renderAll (allOwn_page p c).allProper, Option.map_some]
  exact congrArg some (outlineAll_page p c)

/-- **A page is a document with the tags of its shape**: whatever its texts are, it is
    read as tags of its own and characters, and pages of one shape have the same tags. -/
theorem pageHtml_document (p : Package) (c : Catalog) :
    (∃ xs, Document (pageHtml p c) xs) ∧
      ∃ tags, outline? (pageHtml p c) = some tags ∧
        ∀ p' c', pageShape p' c' = pageShape p c → outline? (pageHtml p' c') = some tags := by
  refine ⟨⟨_, document_renderAll (allOwn_page p c)⟩, _, outline_pageHtml p c, fun p' c' h => ?_⟩
  rw [outline_pageHtml, h]

/-- Marks in a name, in a default and in a doc leave the tags as they are. -/
theorem pageHtml_document_marks :
    let plain := Package.ofItems none ⟨"p", .none⟩ 0 0
      [.field (.ofVariable (CommentGroup.ofList? [⟨"--v", 0⟩]) ⟨"x", .none⟩ ⟨"t", .none⟩ none false)]
    let marked := Package.ofItems none ⟨"<p>", .none⟩ 0 0
      [.field (.ofVariable (CommentGroup.ofList? [⟨"--</p><b>", 0⟩]) ⟨"\"x", .none⟩ ⟨"t", .none⟩
        (some ⟨"'</pre>&'", .none⟩) false)]
    pageShape marked ⟨some "</title>", [⟨"a", [marked]⟩]⟩ =
        pageShape plain ⟨none, [⟨"a", [plain]⟩]⟩ ∧
      outline? (pageHtml marked ⟨some "</title>", [⟨"a", [marked]⟩]⟩) =
        outline? (pageHtml plain ⟨none, [⟨"a", [plain]⟩]⟩) := by
  intro plain marked
  have hshape : pageShape marked ⟨some "</title>", [⟨"a", [marked]⟩]⟩ =
      pageShape plain ⟨none, [⟨"a", [plain]⟩]⟩ := by decide +kernel
  obtain ⟨-, tags, hplain, hsame⟩ := pageHtml_document plain ⟨none, [⟨"a", [plain]⟩]⟩
  exact ⟨hshape, (hsame marked _ hshape).trans hplain.symm⟩

end PackageDoc.Html
