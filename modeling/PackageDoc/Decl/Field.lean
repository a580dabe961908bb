/-
  Names, fields and lists of fields.

  A field is a variable, a constant, an exception, a parameter or a field of a
  record.  Types and default values are text.  The listing of a field is the
  line that shows it on a page.
-/
import PackageDoc.Comment

namespace PackageDoc

/-! ## Names -/

/-- A name, a type or a value: a text that was read from a span of source.  The
    text is put together from tokens, so its length says nothing about the
    span. -/
structure Ident where
  name : String
  span : Span := .none
  deriving DecidableEq, Repr

/-! ## Fields -/

/-- What a field declares. -/
inductive FieldKind where
  | variable_ | constant | exception | parameter
  deriving DecidableEq, Repr

/-- The label of a field on a page. -/
def FieldKind.header : FieldKind → String
  | variable_ => "var"
  | constant => "const"
  | exception => "exception"
  | parameter => "param"

/-- The way in which a parameter is passed; `unstated` if the declaration does
    not say. -/
inductive PassMode where
  | unstated | input | output | inputOutput
  deriving DecidableEq, Repr

/-- How a mode is written. -/
def PassMode.spelling : PassMode → String
  | unstated => ""
  | input => "in"
  | output => "out"
  | inputOutput => "in out"

/-- A variable, a constant, an exception, a parameter or a field of a record. -/
structure Field where
  doc : Option CommentGroup
  name : Ident
  /-- the type, which an exception has not -/
  type? : Option Ident
  kind : FieldKind
  mode : PassMode := .unstated
  default? : Option Ident := none
  /-- whether the type says `not null` -/
  notNull : Bool := false
  deriving DecidableEq

namespace Field

/-- A variable. -/
def ofVariable (doc : Option CommentGroup) (name type : Ident) (default? : Option Ident)
    (notNull : Bool) : Field :=
  { doc, name, type? := some type, kind := .variable_, default?, notNull }

/-- A constant. -/
def ofConstant (doc : Option CommentGroup) (name type : Ident) (default? : Option Ident)
    (notNull : Bool) : Field :=
  { doc, name, type? := some type, kind := .constant, default?, notNull }

/-- An exception. -/
def ofException (doc : Option CommentGroup) (name : Ident) : Field :=
  { doc, name, type? := none, kind := .exception }

/-- A parameter, or a field of a record. -/
def ofParameter (doc : Option CommentGroup) (name : Ident) (mode : PassMode) (type : Ident)
    (default? : Option Ident) : Field :=
  { doc, name, type? := some type, kind := .parameter, mode, default? }

/-- The text of the type, empty without one. -/
def typeText (f : Field) : String := (f.type?.map (·.name)).getD ""

/-- The source of a field. -/
def span (f : Field) : Span :=
  (f.name.span.merge? (f.type?.map (·.span))).merge? (f.default?.map (·.span))

/-- The default value of a field behind its type. -/
def defaultText (f : Field) : String :=
  match f.default? with
  | none => ""
  | some d => (if f.kind = .parameter then " default " else " := ") ++ d.name

/-- The line that shows a field.  It is empty if the name is missing, or the
    type of what has one. -/
def listing (f : Field) : String :=
  let name := f.name.name
  let type := f.typeText
  if name.isEmpty || (type.isEmpty && f.kind != .exception) then ""
  else
    match f.kind with
    | .variable_ => name ++ " " ++ type ++ f.defaultText
    | .constant => name ++ " constant " ++ type ++ f.defaultText
    | .exception => name ++ " exception"
    | .parameter =>
      let mode := if f.mode = .unstated then "" else " " ++ f.mode.spelling
      name ++ mode ++ " " ++ type ++ f.defaultText

end Field

/-! ## Lists of fields -/

/-- Fields between parentheses, which stand at `opening` and `closing`. -/
structure FieldList where
  opening : Nat
  fields : List Field
  closing : Nat
  deriving DecidableEq

namespace FieldList

/-- From the opening parenthesis to the end of the closing one. -/
def span (l : FieldList) : Span := ⟨l.opening, max (addOffset l.closing 1) l.opening⟩

/-- What goes before each field of a list. -/
def margin : String := "    "

/-- The fields of a list, each on a line of its own; nothing if there are none. -/
def listing (l : FieldList) : String :=
  if l.fields.isEmpty then ""
  else "(\n" ++ String.intercalate ",\n" (l.fields.map (margin ++ ·.listing)) ++ "\n)"

end FieldList

/-- The listing of an optional list. -/
def listing? (l : Option FieldList) : String := (l.map (·.listing)).getD ""

end PackageDoc
