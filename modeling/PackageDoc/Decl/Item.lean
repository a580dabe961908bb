/-
  The declarations of a package.

  Beside fields, a package declares subtypes, routines (functions and
  procedures), cursors and types.  Each declaration has the span of its parts, a
  label for its kind and a listing, the signature that a page shows.
-/
import PackageDoc.Decl.Field

namespace PackageDoc

/-! ## Subtypes -/

/-- `subtype name is base`. -/
structure Subtype where
  doc : Option CommentGroup
  name : Ident
  base : Ident
  deriving DecidableEq

namespace Subtype

/-- The source of a subtype, from its name to its base. -/
def span (s : Subtype) : Span := s.name.span.merge s.base.span

/-- The label of a subtype on a page. -/
def header : String := "subtype"

/-- The signature of a subtype. -/
def listing (s : Subtype) : String := "subtype " ++ s.name.name ++ " is " ++ s.base.name

end Subtype

/-! ## Routines -/

/-- Whether a routine gives a result. -/
inductive RoutineKind where
  | function | procedure
  deriving DecidableEq, Repr

/-- How the kind of a routine is written. -/
def RoutineKind.spelling : RoutineKind → String
  | function => "function"
  | procedure => "procedure"

/-- The signature of a function or a procedure. -/
structure Routine where
  doc : Option CommentGroup
  name : Ident
  params : Option FieldList
  kind : RoutineKind
  /-- the type of the result, which a procedure has not -/
  result : Option Ident
  pipelined : Bool
  deterministic : Bool
  resultCache : Bool
  deriving DecidableEq

namespace Routine

/-- The modifiers that a routine has. -/
def modifiers (r : Routine) : List String :=
  (if r.pipelined then ["pipelined"] else []) ++
    (if r.deterministic then ["deterministic"] else []) ++
    (if r.resultCache then ["result_cache"] else [])

/-- The source of a routine: its name, its parameters and its result. -/
def span (r : Routine) : Span :=
  (r.name.span.merge? (r.params.map (·.span))).merge? (r.result.map (·.span))

/-- The label of a routine on a page. -/
def header (r : Routine) : String := r.kind.spelling

/-- The signature of a routine. -/
def listing (r : Routine) : String :=
  r.header ++ (if r.name.name.isEmpty then "" else " " ++ r.name.name) ++ listing? r.params ++
    (match r.result with
      | some t => " return " ++ t.name
      | none => "") ++
    String.join (r.modifiers.map (" " ++ ·))

end Routine

/-! ## Cursors -/

/-- A query, as it stands in the source. -/
structure Sql where
  start : Nat
  text : String
  deriving DecidableEq, Repr

/-- The source of a query, as long as its text. -/
def Sql.span (s : Sql) : Span := .ofLength s.start s.text.utf8ByteSize

/-- `cursor name(params) return type is query`; a cursor that is declared by its
    signature has an empty query. -/
structure Cursor where
  doc : Option CommentGroup
  name : Ident
  params : Option FieldList
  result : Option Ident
  sql : Sql
  deriving DecidableEq

namespace Cursor

/-- The source of a cursor: its name, its query, its parameters and its result. -/
def span (c : Cursor) : Span :=
  ((c.name.span.merge c.sql.span).merge? (c.params.map (·.span))).merge? (c.result.map (·.span))

/-- The label of a cursor on a page. -/
def header : String := "cursor"

/-- The signature of a cursor, with its query on lines of its own. -/
def listing (c : Cursor) : String :=
  "cursor " ++ c.name.name ++ listing? c.params ++
    (match c.result with
      | some t => " return " ++ t.name
      | none => "") ++
    (if c.sql.text.isEmpty then "" else " is\n" ++ c.sql.text)

end Cursor

/-! ## Types -/

/-- What a type is declared to be. -/
inductive TypeBody where
  | table (element : Ident)
  | varray (bound : Option Ident) (element : Ident)
  | record (fields : FieldList)
  /-- a cursor variable, with the type of its rows if it is declared -/
  | refCursor (result : Option Ident)
  deriving DecidableEq

namespace TypeBody

/-- The label of a type on a page. -/
def header : TypeBody → String
  | table _ => "table"
  | varray _ _ => "varray"
  | record _ => "record"
  | refCursor _ => "ref cursor"

/-- The type of the elements, or of the rows. -/
def element? : TypeBody → Option Ident
  | table element | varray _ element => some element
  | refCursor result => result
  | record _ => none

/-- The bound of an array. -/
def bound? : TypeBody → Option Ident
  | varray bound _ => bound
  | _ => none

/-- The fields of a record. -/
def fields? : TypeBody → Option FieldList
  | record fields => some fields
  | _ => none

end TypeBody

/-- `type name is body`. -/
structure TypeDecl where
  doc : Option CommentGroup
  name : Ident
  body : TypeBody
  deriving DecidableEq

namespace TypeDecl

/-- The source of a type: its name and the parts of its definition. -/
def span (t : TypeDecl) : Span :=
  match t.body with
  | .record fields => t.name.span.merge fields.span
  | .varray (some bound) element => (t.name.span.merge bound.span).merge element.span
  | d => t.name.span.merge? (d.element?.map (·.span))

/-- The label of a type on a page. -/
def header (t : TypeDecl) : String := t.body.header

/-- The signature of a type. -/
def listing (t : TypeDecl) : String :=
  "type " ++ t.name.name ++ " is " ++ t.header ++
    match t.body with
    | .table element => " of " ++ element.name
    | .varray bound element =>
      (match bound with
        | some b => "(" ++ b.name ++ ")"
        | none => "") ++ " of " ++ element.name
    | .record fields => fields.listing
    | .refCursor (some result) => " return " ++ result.name
    | .refCursor none => ""

end TypeDecl

/-! ## Declarations -/

/-- A declaration of a package. -/
inductive Item where
  | field (f : Field)
  | subtype (s : Subtype)
  | routine (r : Routine)
  | cursor (c : Cursor)
  | type (t : TypeDecl)
  deriving DecidableEq

/-- The source of a declaration. -/
def Item.span : Item → Span
  | field f => f.span
  | subtype s => s.span
  | routine r => r.span
  | cursor c => c.span
  | type t => t.span

end PackageDoc
