/-
  Declarations up to their places.

  A `Recast` says what becomes of the offsets, the docs, the texts and the queries of
  a declaration, and `recast` applies it all over a file; modes and modifiers stay.
  Two files that have the same recast differ in nothing else:

  * `Recast.same` changes nothing;
  * `Recast.shift n` moves every offset by `n` bytes, those of comments included;
  * `Recast.unplaced` forgets the offsets;
  * `Recast.undocumented` forgets the offsets and the docs;
  * `Recast.bare` forgets the offsets and the docs, and of a query all but
    whether it is empty;
  * `Recast.withoutReturns` forgets the offsets, those of comments included, and the
    carriage returns of texts and queries.

  All but the last keep names, types and values as they are.
-/
import PackageDoc.Package
import PackageDoc.Proofs.Text.LineEnds

namespace PackageDoc

/-- What becomes of the offsets, the docs, the texts and the queries of
    declarations. -/
structure Recast where
  place : Nat → Nat
  doc : Option CommentGroup → Option CommentGroup
  /-- of names, types and values -/
  text : String → String
  query : String → String

/-! ## Comments -/

/-- A comment that stands `n` bytes further on. -/
def Comment.shift (n : Nat) (c : Comment) : Comment := ⟨c.text, c.start + n⟩

/-- A comment of which nothing but the text is known. -/
def Comment.unplaced (c : Comment) : Comment := ⟨c.text, 0⟩

/-- A group with each of its comments changed. -/
def CommentGroup.map (f : Comment → Comment) (g : CommentGroup) : CommentGroup :=
  ⟨g.comments.map f, by simpa using g.nonempty⟩

/-- A group of comments that stands `n` bytes further on. -/
def CommentGroup.shift (n : Nat) (g : CommentGroup) : CommentGroup := g.map (·.shift n)

namespace Recast

/-- Changes nothing. -/
def same : Recast := ⟨id, id, id, id⟩

/-- Moves everything by `n` bytes. -/
def shift (n : Nat) : Recast := ⟨(· + n), Option.map (·.shift n), id, id⟩

/-- Forgets where things stand. -/
def unplaced : Recast := ⟨fun _ => 0, id, id, id⟩

/-- Forgets where things stand, and the docs. -/
def undocumented : Recast := ⟨fun _ => 0, fun _ => none, id, id⟩

/-- Forgets where things stand, the docs, and what the queries say. -/
def bare : Recast := ⟨fun _ => 0, fun _ => none, id, fun q => if q.isEmpty then "" else "query"⟩

/-- Forgets where things stand, docs included, and the carriage returns. -/
def withoutReturns : Recast :=
  ⟨fun _ => 0, Option.map (·.map .unplaced), Text.withoutReturns, Text.withoutReturns⟩

end Recast

variable (r : Recast)

/-! ## Declarations -/

/-- A span with its offsets recast. -/
def Span.recast (s : Span) : Span := ⟨r.place s.start, r.place s.stop⟩

/-- A text recast, with its span. -/
def Ident.recast (x : Ident) : Ident := ⟨r.text x.name, x.span.recast r⟩

/-- A field with its parts recast. -/
def Field.recast (f : Field) : Field :=
  { f with
    doc := r.doc f.doc, name := f.name.recast r, type? := f.type?.map (·.recast r)
    default? := f.default?.map (·.recast r) }

/-- A list of fields with its parts recast. -/
def FieldList.recast (l : FieldList) : FieldList :=
  ⟨r.place l.opening, l.fields.map (·.recast r), r.place l.closing⟩

/-- A subtype with its parts recast. -/
def Subtype.recast (s : Subtype) : Subtype :=
  ⟨r.doc s.doc, s.name.recast r, s.base.recast r⟩

/-- A routine with its parts recast. -/
def Routine.recast (f : Routine) : Routine :=
  { f with
    doc := r.doc f.doc, name := f.name.recast r, params := f.params.map (·.recast r)
    result := f.result.map (·.recast r) }

/-- A query recast. -/
def Sql.recast (q : Sql) : Sql := ⟨r.place q.start, r.query q.text⟩

/-- A cursor with its parts recast. -/
def Cursor.recast (c : Cursor) : Cursor :=
  ⟨r.doc c.doc, c.name.recast r, c.params.map (·.recast r), c.result.map (·.recast r),
    c.sql.recast r⟩

/-- The definition of a type with its parts recast. -/
def TypeBody.recast : TypeBody → TypeBody
  | table element => table (element.recast r)
  | varray bound element => varray (bound.map (·.recast r)) (element.recast r)
  | record fields => record (fields.recast r)
  | refCursor result => refCursor (result.map (·.recast r))

/-- A type with its parts recast. -/
def TypeDecl.recast (t : TypeDecl) : TypeDecl :=
  ⟨r.doc t.doc, t.name.recast r, t.body.recast r⟩

/-- A declaration with its parts recast. -/
def Item.recast : Item → Item
  | field f => field (f.recast r)
  | subtype s => subtype (s.recast r)
  | routine f => routine (f.recast r)
  | cursor c => cursor (c.recast r)
  | type t => type (t.recast r)

/-! ## Packages and files -/

/-- A package with its parts recast. -/
def Package.recast (p : Package) : Package where
  doc := r.doc p.doc
  name := p.name.recast r
  first := r.place p.first
  last := r.place p.last
  fields := p.fields.map (·.recast r)
  subtypes := p.subtypes.map (·.recast r)
  routines := p.routines.map (·.recast r)
  cursors := p.cursors.map (·.recast r)
  types := p.types.map (·.recast r)

/-- A file with its packages recast. -/
def SourceFile.recast (f : SourceFile) : SourceFile := ⟨f.name, f.packages.map (·.recast r)⟩

/-- The parts of a package are recast one by one. -/
theorem Package.recast_ofItems (doc : Option CommentGroup) (name : Ident) (first last : Nat)
    (items : List Item) :
    (Package.ofItems doc name first last items).recast r =
      .ofItems (r.doc doc) (name.recast r) (r.place first) (r.place last)
        (items.map (·.recast r)) := by
  simp only [Package.recast, Package.ofItems, List.map_filterMap, List.filterMap_map,
    Package.mk.injEq, true_and]
  refine ⟨?_, ?_, ?_, ?_, ?_⟩ <;>
    (congr 1; funext item; cases item <;> rfl)

/-! ## Changing nothing -/

@[simp]
theorem Ident.recast_same (x : Ident) : x.recast .same = x := rfl

@[simp]
theorem Field.recast_same (f : Field) : f.recast .same = f := by
  simp [Field.recast]
  rfl

@[simp]
theorem FieldList.recast_same (l : FieldList) : l.recast .same = l := by
  simp [FieldList.recast]
  rfl

@[simp]
theorem TypeBody.recast_same (b : TypeBody) : b.recast .same = b := by
  cases b <;> simp [TypeBody.recast]

@[simp]
theorem Package.recast_same (p : Package) : p.recast .same = p := by
  have hsubtype : ∀ s : Subtype, s.recast .same = s := fun _ => rfl
  have hroutine : ∀ f : Routine, f.recast .same = f := fun f => by simp [Routine.recast]; rfl
  have hcursor : ∀ c : Cursor, c.recast .same = c := fun c => by simp [Cursor.recast]; rfl
  have htype : ∀ t : TypeDecl, t.recast .same = t := fun t => by simp [TypeDecl.recast]; rfl
  simp [Package.recast, hsubtype, hroutine, hcursor, htype]
  rfl

end PackageDoc
