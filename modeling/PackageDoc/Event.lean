/-
  What is logged.

  Events tell what the program does: each token that is read, what is skipped,
  what is found and what is written.  An event has a level, a message and named
  values.
-/
import PackageDoc.LineTable
import PackageDoc.Token.Basic

namespace PackageDoc

/-- How much an event matters. -/
inductive Level where
  | trace | debug | info
  deriving DecidableEq, Repr

namespace Level

/-- The name of a level. -/
def name : Level → String
  | trace => "TRACE"
  | debug => "DEBUG"
  | info => "INFO"

end Level

/-- Something that the program did. -/
inductive Event where
  /-- a token was read, comments and the end of the input included -/
  | token (token : Token) (place : Position)
  | parsedPackage (name : String) (declarations : Nat)
  | skippedBody (span : Span)
  | skippedDeclaration (pos : Nat) (kind : TokenKind)
  | skippedType (name : String) (kind : TokenKind)
  | parsedFile (path : String) (packages : Nat)
  | foundFiles (files : Nat) (extension : String)
  | parsedPackages (packages : Nat)
  | wrotePage (package path : String)
  | wroteSite (pages : Nat) (output : String)
  deriving DecidableEq

/-- A value in an event. -/
inductive EventValue where
  | number (n : Nat)
  | text (s : String)
  deriving DecidableEq, Repr

namespace Event

/-- The level of an event. -/
def level : Event → Level
  | token _ _ => .trace
  | parsedPackage _ _ | skippedBody _ | skippedDeclaration _ _ | skippedType _ _ => .debug
  | parsedFile _ _ | wrotePage _ _ => .debug
  | foundFiles _ _ | parsedPackages _ | wroteSite _ _ => .info

/-- The message of an event. -/
def message : Event → String
  | token _ _ => "token"
  | parsedPackage _ _ => "parsed package"
  | skippedBody _ => "skipped package body"
  | skippedDeclaration _ _ => "skipping unrecognized declaration"
  | skippedType _ _ => "skipping unsupported type"
  | parsedFile _ _ => "parsed file"
  | foundFiles _ _ => "discovered source files"
  | parsedPackages _ => "parsed packages"
  | wrotePage _ _ => "wrote page"
  | wroteSite _ _ => "wrote documentation"

/-- The named values of an event. -/
def values : Event → List (String × EventValue)
  | token t place =>
    [("pos", .number t.pos), ("kind", .text t.kind.label), ("lit", .text t.lexeme),
     ("at", .text place.text)]
  | parsedPackage name n => [("package", .text name), ("decls", .number n)]
  | skippedBody span => [("start", .number span.start), ("end", .number span.stop)]
  | skippedDeclaration pos kind => [("pos", .number pos), ("kind", .text kind.label)]
  | skippedType name kind => [("name", .text name), ("kind", .text kind.label)]
  | parsedFile path n => [("path", .text path), ("packages", .number n)]
  | foundFiles n extension => [("files", .number n), ("ext", .text extension)]
  | parsedPackages n => [("packages", .number n)]
  | wrotePage package path => [("package", .text package), ("path", .text path)]
  | wroteSite n output => [("pages", .number n), ("output", .text output)]

/-- An event in one line. -/
def text (e : Event) : String :=
  e.level.name ++ " " ++ e.message ++
    String.join (e.values.map fun (name, value) =>
      " " ++ name ++ "=" ++ match value with
        | .number n => toString n
        | .text s => s)

end Event

end PackageDoc
