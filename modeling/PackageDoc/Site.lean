/-
  The documentation of a catalog as a set of files.
-/
import PackageDoc.Html.Page
import PackageDoc.Site.Script
import PackageDoc.Site.Stylesheet

namespace PackageDoc.Site

/-- A file of a site; a page has the package that it is about. -/
structure SiteFile where
  name : String
  content : String
  package? : Option String := none
  deriving DecidableEq

/-- The files that all pages share. -/
def assets : List SiteFile := [⟨"main.css", stylesheet, none⟩, ⟨"pldoc.js", script, none⟩]

/-- The page of a package. -/
def pageFile (c : Catalog) (p : Package) : SiteFile :=
  ⟨Html.pageName p.name.name, Html.pageHtml p c, some p.name.name⟩

/-- The files of a site, in the order in which they are written. -/
def files (c : Catalog) : List SiteFile := assets ++ c.packages.map (pageFile c)

end PackageDoc.Site
