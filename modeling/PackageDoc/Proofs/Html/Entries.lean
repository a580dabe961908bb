/-
  What a page shows.

  Every declaration of the package has one entry on its page, in a section with those of
  its sort, and one link in the search dialog; every package name has one link in the
  sidebar.  This is said about the page as it is read (`ShowsAll`): what is written into
  it is found there, in the order of the package.

  Main statement: `pageHtml_shows`.
-/
import Mathlib.Data.List.Induction
import PackageDoc.Proofs.Html.Elements

namespace PackageDoc.Html

/-! ## The parts that are looked for -/

/-- A part of this class. -/
def Tag.hasClass (cls : String) (t : Tag) : Bool := t.value? "class" = some cls

/-- The entry of a declaration. -/
def Tag.isEntry (t : Tag) : Bool := t.hasClass "decl"

/-- A section. -/
def Tag.isSection (t : Tag) : Bool := t.name = "section"

/-- A link. -/
def Tag.isLink (t : Tag) : Bool := t.name = "a"

/-- The links in an element of this class. -/
def links (cls : String) (ns : List Node) : List Element :=
  (find (Tag.hasClass cls) ns).flatMap fun e => find Tag.isLink e.children

/-- The kind and the name of a declaration, as a page shows them. -/
def titleHtml (kind name : String) : String :=
  "<span class=\"decl-kind\">" ++ escape kind ++ "</span> " ++ escape name

/-- A declaration, as a page shows it: what it is, its listing and, if there is one, its
    doc. -/
def declarationHtml (kind name listing : String) (doc : Option CommentGroup) : String :=
  "\n<h3>" ++ titleHtml kind name ++ "</h3>\n<pre class=\"listing\">" ++ escape listing ++
    "</pre>\n" ++
    if docHtml doc = "" then "" else "<div class=\"doc\">\n" ++ docHtml doc ++ "\n</div>\n"

/-- The sorts of declarations in the order of a page, with what `f` makes of the kind, the
    name, the listing and the doc of each declaration. -/
def sorts {α : Type} (p : Package) (f : String → String → String → Option CommentGroup → α) :
    List (String × List α) :=
  [("types", p.types.map fun t => f t.header t.name.name t.listing t.doc),
   ("subtypes", p.subtypes.map fun s => f Subtype.header s.name.name s.listing s.doc),
   ("variables", p.fields.map fun v => f v.kind.header v.name.name v.listing v.doc),
   ("cursors", p.cursors.map fun c => f Cursor.header c.name.name c.listing c.doc),
   ("functions", p.routines.map fun r => f r.header r.name.name r.listing r.doc)]

/-- The kinds and the names of the declarations in the order of a page. -/
def titles (p : Package) : List (String × String) :=
  (sorts p fun kind name _ _ => (kind, name)).flatMap (·.2)

/-- A character that stands in anchors. -/
def IsAnchorChar (c : Char) : Prop := Text.isAlphanumeric c = true ∨ c = '_' ∨ c = '$' ∨ c = '#'

instance : DecidablePred IsAnchorChar := fun _ => inferInstanceAs (Decidable (_ ∨ _))

/-- What has been read is a page of the package, on which the entries have these ids. -/
structure ShowsAll (p : Package) (c : Catalog) (page : List Node) (ids : List String) : Prop where
  /-- every declaration once -/
  count : (find Tag.isEntry page).length = p.itemCount
  /-- no entry stands outside of the sections -/
  grouped : find Tag.isEntry page =
    (find Tag.isSection page).flatMap fun s => find Tag.isEntry s.children
  /-- the sorts in order, each with its declarations in order -/
  sections :
    (find Tag.isSection page).map
        (fun s => (s.value? "id", (find Tag.isEntry s.children).map Element.html)) =
      ((sorts p declarationHtml).filter (!·.2.isEmpty)).map fun s => (some s.1, s.2)
  anchored : (find Tag.isEntry page).map (·.value? "id") = ids.map some
  /-- the dialog has a link to every entry -/
  dialog : (links "search-box" page).length = p.itemCount ∧
    (links "search-box" page).map (fun a => (a.value? "href", a.html)) =
      (ids.zip (titles p)).map fun (id, kind, name) => (some ("#" ++ id), titleHtml kind name)
  /-- declarations with one name are numbered -/
  numbers : (∀ t ∈ titles p, ∀ ch ∈ t.2.toList, IsAnchorChar ch) →
    ids.Nodup ∧ ∀ i kind name, (titles p)[i]? = some (kind, name) →
      ids[i]? = some (numberedAnchor name ((((titles p).take i).map (·.2)).count name + 1))
  /-- the sidebar has every name once, where it comes first -/
  sidebar : ∃ names : List String, names.Nodup ∧
    (∀ name, name ∈ names ↔ ∃ q ∈ c.packages, q.name.name = name) ∧
    names.Pairwise (fun a b =>
      (c.packages.map (·.name.name)).idxOf a < (c.packages.map (·.name.name)).idxOf b) ∧
    (links "package-list" page).map (fun a => (a.value? "class", a.value? "href", a.html)) =
      names.map fun name =>
        (if name = p.name.name then some "current" else none, some (name ++ ".html"), escape name)

/-! ## HTML of the parts -/

theorem render_title (kind name : String) : renderAll (title kind name) = titleHtml kind name := by
  have hstart : startTag "span" [("class", "decl-kind")] = "<span class=\"decl-kind\">" := by
    decide +kernel
  have hend : endTag "span" ++ escape " " = "</span> " := by decide +kernel
  change _ = "<span class=\"decl-kind\">" ++ escape kind ++ "</span> " ++ escape name
  rw [← hstart, ← hend]
  simp [title, label, renderAll, Node.render, String.append_assoc]

theorem docHtml_eq_empty_iff {doc : Option CommentGroup} :
    docHtml doc = "" ↔ docNodes (docText doc) = [] := by
  have hstart : ∀ b : Block, (renderAll [b.node]).toList ≠ [] := by
    intro b
    cases b <;> simp [Block.node, renderAll, Node.render, toList_startTag]
  unfold docHtml docTextHtml
  rw [docNodes_eq_nil_iff, docNodes, ← String.toList_inj]
  rcases blocks (docText doc) with - | ⟨b, - | ⟨b', bs⟩⟩
  · simp [renderAll]
  · simpa using hstart b
  · have := hstart b
    simp_all [renderAll]

theorem render_docBlock (doc : Option CommentGroup) :
    renderAll (docBlock doc) =
      if docHtml doc = "" then "" else "<div class=\"doc\">\n" ++ docHtml doc ++ "\n</div>\n" := by
  have hstart : startTag "div" [("class", "doc")] ++ "\n" = "<div class=\"doc\">\n" := by
    decide +kernel
  have hend : "\n" ++ (endTag "div" ++ "\n") = "\n</div>\n" := by decide +kernel
  unfold docBlock
  split
  · rename_i hnil
    rw [if_pos (docHtml_eq_empty_iff.2 hnil), renderAll]
  · rename_i hne
    rw [if_neg (mt docHtml_eq_empty_iff.1 hne), ← hstart, ← hend]
    simp [block, onLine, renderAll, Node.render, renderAll_append, docHtml, docTextHtml,
      String.append_assoc]

/-- The element of an entry. -/
def Entry.element (e : Entry) : Element :=
  ⟨⟨"div", [("class", "decl"), ("id", e.anchor)]⟩,
    .newline :: (heading "h3" e.header e.name ++
      onLine (label "pre" [("class", "listing")] e.listing) ++ docBlock e.doc)⟩

theorem Entry.html_element (e : Entry) :
    e.element.html = declarationHtml e.header e.name e.listing e.doc := by
  have hopen : "\n" ++ startTag "h3" [] = "\n<h3>" := by decide +kernel
  have hmiddle : endTag "h3" ++ "\n" ++ startTag "pre" [("class", "listing")] =
      "</h3>\n<pre class=\"listing\">" := by decide +kernel
  have hend : endTag "pre" ++ "\n" = "</pre>\n" := by decide +kernel
  change _ = "\n<h3>" ++ titleHtml e.header e.name ++ "</h3>\n<pre class=\"listing\">" ++
    escape e.listing ++ "</pre>\n" ++
    if docHtml e.doc = "" then "" else "<div class=\"doc\">\n" ++ docHtml e.doc ++ "\n</div>\n"
  rw [← hopen, ← hmiddle, ← hend, ← render_docBlock, ← render_title]
  simp [Entry.element, Element.html, heading, label, onLine, renderAll, Node.render,
    String.append_assoc]

/-- The element of a section. -/
def Section.element (s : Section) : Element :=
  ⟨⟨"section", [("id", s.id)]⟩,
    .newline :: (onLine (label "h2" [] s.title) ++ s.entries.flatMap entryBlock)⟩

/-! ## What is found on a page -/

theorem skipsDocs_isEntry : SkipsDocs Tag.isEntry := by
  simp [SkipsDocs, Tag.isEntry, Tag.hasClass, Tag.value?]

theorem skipsDocs_isSection : SkipsDocs Tag.isSection := by
  simp [SkipsDocs, Tag.isSection]

theorem find_isEntry_entryBlock (e : Entry) : find Tag.isEntry (entryBlock e) = [e.element] := by
  have hdoc := find_docBlock skipsDocs_isEntry e.doc
  simp [entryBlock, heading, title, label, Entry.element, Tag.isEntry, Tag.hasClass, Tag.value?,
    hdoc]

theorem find_isSection_entryBlock (e : Entry) : find Tag.isSection (entryBlock e) = [] := by
  have hdoc := find_docBlock skipsDocs_isSection e.doc
  simp [entryBlock, heading, title, label, Tag.isSection, hdoc]

theorem find_isEntry_sectionBlock (s : Section) :
    find Tag.isEntry (sectionBlock s) = s.entries.map Entry.element := by
  simp [sectionBlock, label, Tag.isEntry, Tag.hasClass, Tag.value?, find_isEntry_entryBlock,
    List.map_eq_flatMap]

theorem find_isSection_sectionBlock (s : Section) :
    find Tag.isSection (sectionBlock s) = [s.element] := by
  simp [sectionBlock, label, Section.element, Tag.isSection, find_isSection_entryBlock]

theorem find_isEntry_children (s : Section) :
    find Tag.isEntry s.element.children = s.entries.map Entry.element := by
  simp [Section.element, label, Tag.isEntry, Tag.hasClass, Tag.value?, find_isEntry_entryBlock,
    List.map_eq_flatMap]

theorem find_isEntry_page (p : Package) (c : Catalog) :
    find Tag.isEntry (page p c) = (sections p).flatMap (·.entries.map Entry.element) := by
  have hdoc := find_docBlock skipsDocs_isEntry p.doc
  have hlink : ∀ name, find Tag.isEntry (packageLink p.name.name name) = [] := by
    intro name
    by_cases h : name = p.name.name <;>
      simp [packageLink, label, Tag.isEntry, Tag.hasClass, Tag.value?, h]
  simp [page, pageHead, searchDialog, searchLink, sidebar, heading, title, label, Tag.isEntry,
    Tag.hasClass, Tag.value?, hdoc, hlink, flatMap_none, find_isEntry_sectionBlock]

theorem find_isSection_page (p : Package) (c : Catalog) :
    find Tag.isSection (page p c) = (sections p).map Section.element := by
  have hdoc := find_docBlock skipsDocs_isSection p.doc
  have hlink : ∀ name, find Tag.isSection (packageLink p.name.name name) = [] := by
    intro name
    simp [packageLink, label, Tag.isSection]
  simp [page, pageHead, searchDialog, searchLink, sidebar, heading, title, label, Tag.isSection,
    hdoc, hlink, flatMap_none, find_isSection_sectionBlock, ← List.map_eq_flatMap]

/-- The link of the dialog to an entry. -/
def Entry.link (e : Entry) : Element :=
  ⟨⟨"a", [("href", "#" ++ e.anchor)]⟩, title e.header e.name⟩

/-- Nothing is of a class that declarations and links are not of. -/
theorem find_hasClass_none (cls : String)
    (h : cls ∉ ["decl", "decl-kind", "listing", "doc", "current"]) :
    (∀ doc, find (Tag.hasClass cls) (docBlock doc) = []) ∧
      (∀ e, find (Tag.hasClass cls) (entryBlock e) = []) ∧
      (∀ e, find (Tag.hasClass cls) (searchLink e) = []) ∧
      ∀ current name, find (Tag.hasClass cls) (packageLink current name) = [] := by
  have hclass : ∀ cls' ∈ ["decl", "decl-kind", "listing", "doc", "current"], cls' ≠ cls :=
    fun cls' hcls' heq => h (heq ▸ hcls')
  simp only [List.forall_mem_cons] at hclass
  obtain ⟨hdecl, hkind, hlisting, hdoc, hcurrent, -⟩ := hclass
  have hdocs : ∀ doc, find (Tag.hasClass cls) (docBlock doc) = [] :=
    find_docBlock (by simp [SkipsDocs, Tag.hasClass, Tag.value?, hdoc])
  refine ⟨hdocs, fun e => ?_, fun e => ?_, fun current name => ?_⟩
  · simp [entryBlock, heading, title, label, Tag.hasClass, Tag.value?, hdecl, hkind, hlisting,
      hdocs]
  · simp [searchLink, title, label, Tag.hasClass, Tag.value?, hkind]
  · by_cases hname : name = current <;>
      simp [packageLink, label, Tag.hasClass, Tag.value?, hname, hcurrent]

theorem links_dialog (p : Package) (c : Catalog) :
    links "search-box" (page p c) = ((sections p).flatMap (·.entries)).map Entry.link := by
  obtain ⟨hdoc, hentry, hsearch, hpackage⟩ := find_hasClass_none "search-box" (by decide)
  have hlink : ∀ e, find Tag.isLink (searchLink e) = [e.link] := by
    intro e
    simp [searchLink, title, label, Tag.isLink, Entry.link]
  have hinput : Tag.isLink ⟨"input", [("id", "search-input"), ("type", "text"),
      ("placeholder", "Search declarations"), ("autocomplete", "off")]⟩ = false := by
    decide
  have hlist : Tag.isLink ⟨"div", [("id", "list-wrap"), ("class", "list-wrap")]⟩ = false := by
    decide
  simp [links, page, pageHead, searchDialog, sidebar, sectionBlock, heading, title, label,
    Tag.hasClass, Tag.value?, hdoc, hentry, hpackage, hsearch, hlink, hinput, hlist, flatMap_none,
    ← List.map_eq_flatMap]

/-- The link of the sidebar to a package. -/
def packageElement (current name : String) : Element :=
  ⟨⟨"a", if name = current then [("class", "current"), ("href", pageName name)]
    else [("href", pageName name)]⟩, [.text name]⟩

theorem links_sidebar (p : Package) (c : Catalog) :
    links "package-list" (page p c) =
      (c.packages.map (·.name.name)).eraseDups.map (packageElement p.name.name) := by
  obtain ⟨hdoc, hentry, hsearch, hpackage⟩ := find_hasClass_none "package-list" (by decide)
  have hlink : ∀ name, find Tag.isLink (packageLink p.name.name name) =
      [packageElement p.name.name name] := by
    intro name
    by_cases h : name = p.name.name <;> simp [packageLink, label, Tag.isLink, packageElement, h]
  simp [links, page, pageHead, searchDialog, sidebar, sectionBlock, heading, title, label,
    Tag.hasClass, Tag.value?, hdoc, hentry, hsearch, hpackage, hlink, flatMap_none,
    ← List.map_eq_flatMap]

theorem links_singlesAll (cls : String) (ns : List Node) :
    links cls (singlesAll ns) = (links cls ns).map Element.singles := by
  simp [links, find_singlesAll, List.flatMap_map, List.map_flatMap, Element.singles]

/-! ## Names that come first -/

/-- Removing duplicates keeps every name where it comes first. -/
theorem pairwise_idxOf_eraseDups (names : List String) :
    names.eraseDups.Nodup ∧ names.eraseDups.Pairwise fun a b => names.idxOf a < names.idxOf b := by
  induction names using List.reverseRecOn with
  | nil => simp
  | append_singleton names name ih =>
    obtain ⟨hnodup, hpairwise⟩ := ih
    have hold : ∀ a ∈ names.eraseDups, (names ++ [name]).idxOf a = names.idxOf a :=
      fun a ha => List.idxOf_append_of_mem (List.mem_eraseDups.1 ha)
    have hold' : names.eraseDups.Pairwise fun a b =>
        (names ++ [name]).idxOf a < (names ++ [name]).idxOf b := by
      refine hpairwise.imp_of_mem fun {a b} ha hb hlt => ?_
      rwa [hold a ha, hold b hb]
    rw [List.eraseDups_append]
    by_cases hmem : name ∈ names
    · simpa [List.removeAll, hmem] using ⟨hnodup, hold'⟩
    · have hname : [name].removeAll names = [name] := by simp [List.removeAll, hmem]
      rw [hname]
      rw [List.eraseDups_cons, List.filter_nil, List.eraseDups_nil]
      refine ⟨List.nodup_append.2 ⟨hnodup, List.nodup_singleton _, ?_⟩,
        List.pairwise_append.2 ⟨hold', List.pairwise_singleton _ _, ?_⟩⟩
      · rintro a ha b hb rfl
        rw [List.mem_singleton.1 hb] at ha
        exact hmem (List.mem_eraseDups.1 ha)
      · intro a ha b hb
        rw [List.mem_singleton.1 hb, hold a ha, List.idxOf_append_of_notMem hmem]
        have hlt := List.idxOf_lt_length_iff.2 (List.mem_eraseDups.1 ha)
        omega

/-! ## The declarations of a page -/

theorem sorts_eq {α : Type} (p : Package) (f : String → String → String → Option CommentGroup → α) :
    sorts p f =
      (summaries p).map fun s => (s.1, s.2.2.map fun d => f d.header d.name d.listing d.doc) := by
  simp [sorts, summaries]

theorem length_titles (p : Package) : (titles p).length = p.itemCount := by
  simp [titles, sorts, Package.itemCount]
  omega

/-- The entries of a page in order. -/
def allEntries (p : Package) : List Entry := (sections p).flatMap (·.entries)

theorem map_allEntries_toSummary (p : Package) :
    (allEntries p).map Entry.toSummary = (summaries p).flatMap (·.2.2) := by
  rw [allEntries, List.map_flatMap, flatMap_sections, numbered_toSummary]

theorem map_allEntries_anchor (p : Package) :
    (allEntries p).map (·.anchor) =
      anchors (((summaries p).flatMap (·.2.2)).map (anchorBase ·.name)) := by
  rw [allEntries, List.map_flatMap, flatMap_sections, numbered_anchor, anchors]

theorem titles_eq (p : Package) : titles p = (allEntries p).map fun e => (e.header, e.name) := by
  have hsummaries :=
    congrArg (List.map fun d : Summary => (d.header, d.name)) (map_allEntries_toSummary p)
  rw [List.map_map] at hsummaries
  rw [titles, sorts_eq, List.flatMap_map, ← List.map_flatMap, ← hsummaries]
  rfl

theorem anchorBase_of_isAnchorChar {name : String} (h : ∀ c ∈ name.toList, IsAnchorChar c) :
    anchorBase name = name := by
  rw [anchorBase, ← String.toList_inj, String.toList_ofList]
  refine (List.map_congr_left fun c hc => ?_).trans (List.map_id _)
  refine if_pos ?_
  simpa [IsAnchorChar, or_assoc] using h c hc

theorem not_isAnchorChar_dash : ¬ IsAnchorChar '-' := by
  unfold IsAnchorChar
  decide

/-! ## The page -/

/-- The ids of the entries of a page. -/
def entryIds (p : Package) : List String := (allEntries p).map (·.anchor)

/-- Names that need no change are numbered. -/
theorem entryIds_numbers {p : Package}
    (h : ∀ t ∈ titles p, ∀ ch ∈ t.2.toList, IsAnchorChar ch) :
    (entryIds p).Nodup ∧ ∀ i kind name, (titles p)[i]? = some (kind, name) →
      (entryIds p)[i]? =
        some (numberedAnchor name ((((titles p).take i).map (·.2)).count name + 1)) := by
  have hids : entryIds p = anchors ((titles p).map (·.2)) := by
    rw [entryIds, map_allEntries_anchor, ← map_allEntries_toSummary, titles_eq, List.map_map,
      List.map_map]
    refine congrArg anchors (List.map_congr_left fun e he => ?_)
    exact anchorBase_of_isAnchorChar (h (e.header, e.name) (titles_eq p ▸ List.mem_map_of_mem he))
  rw [hids]
  constructor
  · refine nodup_anchors fun b hb hdash => ?_
    obtain ⟨t, ht, rfl⟩ := List.mem_map.1 hb
    exact not_isAnchorChar_dash (h t ht '-' hdash)
  · intro i kind name hget
    obtain ⟨hi, hget⟩ := List.getElem?_eq_some_iff.1 hget
    have hi' : i < ((titles p).map (·.2)).length := by rwa [List.length_map]
    have hi'' : i < (anchors ((titles p).map (·.2))).length := by rwa [length_anchors]
    rw [List.getElem?_eq_getElem hi'', getElem_anchors hi' hi'', List.getElem_map, hget,
      List.map_take]

/-- **A page shows every declaration once, and every package once.** -/
theorem pageHtml_shows (p : Package) (c : Catalog) :
    ∃ ns ids, read? (pageHtml p c) = some ns ∧ ShowsAll p c ns ids := by
  refine ⟨singlesAll (page p c), entryIds p, read?_renderAll (allOwn_page p c).allProper, ?_⟩
  have hentries : find Tag.isEntry (page p c) = (allEntries p).map Entry.element := by
    rw [find_isEntry_page, allEntries, List.map_flatMap]
  have hcount : (allEntries p).length = p.itemCount := by
    rw [← length_titles, titles_eq, List.length_map]
  have hdialog : links "search-box" (page p c) = (allEntries p).map Entry.link := links_dialog p c
  constructor
  case count => simp [find_singlesAll, hentries, hcount]
  case grouped =>
    simp [find_singlesAll, find_isEntry_page, find_isSection_page, find_isEntry_children,
      List.flatMap_map, List.map_flatMap, Element.singles]
  case sections =>
    have hshown : ∀ e : Element, (e.singles.value? "id",
        (find Tag.isEntry e.singles.children).map Element.html) =
          (e.value? "id", (find Tag.isEntry e.children).map Element.html) := by
      intro e
      rw [Element.singles, map_find_singlesAll Element.html_singles]
    have hview := congrArg (List.map fun s => (some s.1, s.2.2.map fun d =>
      declarationHtml d.header d.name d.listing d.doc)) (sections_view p)
    have hsection : ∀ s : Section, (s.element.value? "id",
        (find Tag.isEntry s.element.children).map Element.html) =
          (some s.id, s.entries.map fun e => declarationHtml e.header e.name e.listing e.doc) := by
      intro s
      rw [find_isEntry_children, List.map_map]
      simp [Section.element, Tag.value?, Function.comp_def, Entry.html_element]
    rw [map_find_singlesAll hshown, find_isSection_page, sorts_eq, List.filter_map, List.map_map,
      List.map_map]
    simpa [Section.view, Function.comp_def, hsection] using hview
  case anchored =>
    rw [map_find_singlesAll fun _ => rfl, hentries, entryIds]
    simp [Entry.element, Tag.value?]
  case dialog =>
    refine ⟨by simp [links_singlesAll, hdialog, hcount], ?_⟩
    rw [links_singlesAll, hdialog, entryIds, titles_eq, List.zip_map', List.map_map, List.map_map,
      List.map_map]
    refine List.map_congr_left fun e _ => ?_
    simp [Element.singles, Entry.link, Tag.value?, Element.html, renderAll_singlesAll, render_title]
  case numbers => exact entryIds_numbers
  case sidebar =>
    obtain ⟨hnodup, hfirst⟩ := pairwise_idxOf_eraseDups (c.packages.map (·.name.name))
    refine ⟨_, hnodup, fun name => by simp, hfirst, ?_⟩
    rw [links_singlesAll, links_sidebar, List.map_map, List.map_map]
    refine List.map_congr_left fun name _ => ?_
    by_cases hname : name = p.name.name <;>
      simp [Element.singles, packageElement, Tag.value?, Element.html, renderAll_singlesAll,
        renderAll, Node.render, pageName, hname]

/-- Declarations of one name, of different sorts, are numbered. -/
theorem pageHtml_shows_overloads :
    let p := Package.ofItems none ⟨"p", .none⟩ 0 0
      [.routine ⟨none, ⟨"run", .none⟩, none, .procedure, none, false, false, false⟩,
       .subtype ⟨none, ⟨"run", .none⟩, ⟨"t", .none⟩⟩,
       .routine ⟨none, ⟨"run", .none⟩, none, .function, some ⟨"t", .none⟩, false, false, false⟩]
    (∀ t ∈ titles p, ∀ ch ∈ t.2.toList, IsAnchorChar ch) ∧
      ∃ (ns : List Node) (ids : List String), read? (pageHtml p ⟨none, [⟨"a", [p]⟩]⟩) = some ns ∧
        (find Tag.isEntry ns).map (·.value? "id") = ids.map some ∧ ids.Nodup ∧
        ids[2]? = some "run-3" := by
  intro p
  have hnames : ∀ t ∈ titles p, ∀ ch ∈ t.2.toList, IsAnchorChar ch := by
    have hall : (titles p).all (fun t => t.2.toList.all fun ch => IsAnchorChar ch) = true := by
      decide +kernel
    simpa only [List.all_eq_true, decide_eq_true_eq] using hall
  obtain ⟨ns, ids, hread, hshows⟩ := pageHtml_shows p ⟨none, [⟨"a", [p]⟩]⟩
  obtain ⟨hnodup, hnumbers⟩ := hshows.numbers hnames
  have hthird : numberedAnchor "run" ((((titles p).take 2).map (·.2)).count "run" + 1) =
      "run-3" := by
    decide +kernel
  exact ⟨hnames, ns, ids, hread, hshows.anchored, hnodup, hthird ▸ hnumbers 2 "function" "run" rfl⟩

end PackageDoc.Html
