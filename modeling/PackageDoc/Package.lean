/-
  Packages and the files that hold them.

  A package keeps its declarations by kind, in the order of the source.
-/
import PackageDoc.Decl.Item

namespace PackageDoc

/-- A package specification. -/
structure Package where
  doc : Option CommentGroup
  name : Ident
  /-- where the statement that creates the package starts -/
  first : Nat
  /-- where its closing word ends -/
  last : Nat
  /-- the variables, constants and exceptions -/
  fields : List Field
  subtypes : List Subtype
  routines : List Routine
  cursors : List Cursor
  types : List TypeDecl
  deriving DecidableEq

namespace Package

/-- The package with the given declarations. -/
def ofItems (doc : Option CommentGroup) (name : Ident) (first last : Nat) (items : List Item) :
    Package where
  doc
  name
  first
  last
  fields := items.filterMap fun | .field f => some f | _ => none
  subtypes := items.filterMap fun | .subtype s => some s | _ => none
  routines := items.filterMap fun | .routine r => some r | _ => none
  cursors := items.filterMap fun | .cursor c => some c | _ => none
  types := items.filterMap fun | .type t => some t | _ => none

/-- The number of declarations. -/
def itemCount (p : Package) : Nat :=
  p.fields.length + p.subtypes.length + p.routines.length + p.cursors.length + p.types.length

/-- The source of a package. -/
def span (p : Package) : Span := ⟨p.first, max p.last p.first⟩

/-- Every declaration is kept, and only once. -/
theorem itemCount_ofItems (doc : Option CommentGroup) (name : Ident) (first last : Nat)
    (items : List Item) : (ofItems doc name first last items).itemCount = items.length := by
  simp only [itemCount, ofItems]
  induction items with
  | nil => rfl
  | cons i is ih => cases i <;> simp only [List.filterMap_cons, List.length_cons] <;> omega

end Package

/-- The packages of a source file. -/
structure SourceFile where
  name : String
  packages : List Package
  deriving DecidableEq

/-- The files that are documented together. -/
structure Catalog where
  description : Option String
  files : List SourceFile
  deriving DecidableEq

/-- The packages of all files, in order. -/
def Catalog.packages (c : Catalog) : List Package := c.files.flatMap (·.packages)

end PackageDoc
