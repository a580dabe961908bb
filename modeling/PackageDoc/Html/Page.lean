/-
  The page of a package.

  A page has a search dialog over the declarations, a sidebar with all packages,
  and a section for each sort of declaration that the package has.  A declaration
  is found by its anchor: its name, with every character replaced that does not
  belong into one, and numbered from the second declaration on that would have
  the same.
-/
import PackageDoc.Html.DocText
import PackageDoc.Package
import PackageDoc.Text.Alphabetic

namespace PackageDoc.Html

open Text

/-! ## Declarations on a page -/

/-- What a page shows of a declaration. -/
structure Summary where
  header : String
  name : String
  listing : String
  doc : Option CommentGroup

/-- A declaration on a page, with its anchor. -/
structure Entry extends Summary where
  anchor : String

/-- Declarations of one sort. -/
structure Section where
  id : String
  title : String
  entries : List Entry

/-- The anchor that a name asks for. -/
def anchorBase (name : String) : String :=
  String.ofList (name.toList.map fun c =>
    if isAlphanumeric c || c == '_' || c == '$' || c == '#' then c else '-')

/-- The anchor of a declaration that asks for `base`, where `taken` were asked
    for before. -/
def anchor (taken : List String) (base : String) : String :=
  match taken.count base with
  | 0 => base
  | n + 1 => base ++ "-" ++ toString (n + 2)

/-- The entries of some declarations, where `taken` are the anchors that were
    asked for before them. -/
def entries (taken : List String) : List Summary → List Entry
  | [] => []
  | s :: ss =>
    let base := anchorBase s.name
    { s with anchor := anchor taken base } :: entries (base :: taken) ss

/-- The sections of the given declarations, where `taken` are the anchors that
    were asked for before them. -/
def numbered (taken : List String) : List (String × String × List Summary) → List Section
  | [] => []
  | (id, title, ss) :: rest =>
    ⟨id, title, entries taken ss⟩ :: numbered (ss.map (anchorBase ·.name) ++ taken) rest

/-- The declarations of a package in the order of its page. -/
def summaries (p : Package) : List (String × String × List Summary) :=
  [("types", "Types", p.types.map fun t => ⟨t.header, t.name.name, t.listing, t.doc⟩),
   ("subtypes", "Subtypes",
    p.subtypes.map fun s => ⟨Subtype.header, s.name.name, s.listing, s.doc⟩),
   ("variables", "Variables, constants and exceptions",
    p.fields.map fun f => ⟨f.kind.header, f.name.name, f.listing, f.doc⟩),
   ("cursors", "Cursors",
    p.cursors.map fun c => ⟨Cursor.header, c.name.name, c.listing, c.doc⟩),
   ("functions", "Functions and procedures",
    p.routines.map fun r => ⟨r.header, r.name.name, r.listing, r.doc⟩)]

/-- The sections of a package; sorts without declarations have none. -/
def sections (p : Package) : List Section :=
  (numbered [] (summaries p)).filter (!·.entries.isEmpty)

/-! ## Parts of a page -/

/-- A node on a line of its own. -/
def onLine (n : Node) : List Node := [n, .newline]

/-- An element whose tags stand on lines of their own. -/
def block (tag : String) (attributes : List Attribute) (children : List Node) : List Node :=
  onLine (.element tag attributes (.newline :: children))

/-- An element that holds only text. -/
def label (tag : String) (attributes : List Attribute) (text : String) : Node :=
  .element tag attributes [.text text]

/-- The kind and the name of a declaration. -/
def title (kind name : String) : List Node :=
  [label "span" [("class", "decl-kind")] kind, .text " ", .text name]

/-- The name of the file of a package's page. -/
def pageName (package : String) : String := package ++ ".html"

/-- The head of a page. -/
def pageHead (pageTitle : String) : List Node :=
  block "head" []
    (onLine (.void "meta" [("charset", "utf-8")]) ++
     onLine (.void "meta"
       [("name", "viewport"), ("content", "width=device-width, initial-scale=1")]) ++
     onLine (label "title" [] pageTitle) ++
     onLine (.void "link" [("rel", "stylesheet"), ("href", "main.css")]))

/-- The link of the search dialog to a declaration. -/
def searchLink (e : Entry) : List Node :=
  onLine (.element "a" [("href", "#" ++ e.anchor)] (title e.header e.name))

/-- The dialog that finds declarations. -/
def searchDialog (ss : List Section) : List Node :=
  block "div" [("id", "modal"), ("class", "modal invisible-item")]
    (block "div" [("class", "search-box")]
      (onLine (.void "input" [("id", "search-input"), ("type", "text"),
         ("placeholder", "Search declarations"), ("autocomplete", "off")]) ++
       block "div" [("id", "list-wrap"), ("class", "list-wrap")]
         ((ss.flatMap (·.entries)).flatMap searchLink)))

/-- The link of the sidebar to a package. -/
def packageLink (current name : String) : List Node :=
  let href := ("href", pageName name)
  let attributes := if name = current then [("class", "current"), href] else [href]
  onLine (.element "li" [] [label "a" attributes name])

/-- The sidebar: the title of the documentation and all packages, each name
    once. -/
def sidebar (docTitle : String) (names : List String) (current : String) : List Node :=
  block "nav" [("class", "sidebar")]
    (onLine (label "h2" [] docTitle) ++
     onLine (.element "button" [("id", "search-button"), ("type", "button")]
       [.text "Search ", label "kbd" [] "f"]) ++
     block "ul" [("class", "package-list")] (names.eraseDups.flatMap (packageLink current)))

/-- A heading with the kind and the name of what it heads. -/
def heading (tag kind name : String) : List Node := onLine (.element tag [] (title kind name))

/-- The doc of a declaration; nothing if it says nothing. -/
def docBlock (doc : Option CommentGroup) : List Node :=
  match docNodes (docText doc) with
  | [] => []
  | nodes => block "div" [("class", "doc")] (nodes ++ [.newline])

/-- A declaration. -/
def entryBlock (e : Entry) : List Node :=
  block "div" [("class", "decl"), ("id", e.anchor)]
    (heading "h3" e.header e.name ++ onLine (label "pre" [("class", "listing")] e.listing) ++
     docBlock e.doc)

/-- A section. -/
def sectionBlock (s : Section) : List Node :=
  block "section" [("id", s.id)]
    (onLine (label "h2" [] s.title) ++ s.entries.flatMap entryBlock)

/-! ## The page -/

/-- The title of a documentation that has no description. -/
def defaultTitle : String := "Documentation"

/-- The page of a package of a catalog. -/
def page (p : Package) (c : Catalog) : List Node :=
  let docTitle := c.description.getD defaultTitle
  let name := p.name.name
  let ss := sections p
  onLine .doctype ++
  block "html" [("lang", "en")]
    (pageHead (name ++ " - " ++ docTitle) ++
     block "body" []
       (searchDialog ss ++
        sidebar docTitle (c.packages.map (·.name.name)) name ++
        block "main" [("class", "content")]
          (heading "h1" "package" name ++ docBlock p.doc ++ ss.flatMap sectionBlock) ++
        onLine (.element "script" [("src", "pldoc.js")] [])))

/-- The HTML of the page of a package. -/
def pageHtml (p : Package) (c : Catalog) : String := renderAll (page p c)

end PackageDoc.Html
