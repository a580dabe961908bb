/-
  Why a source is refused.
-/
import PackageDoc.Token.Basic

namespace PackageDoc

/-- What is wrong with a source. -/
inductive ParseFault where
  | unexpectedToken (expected found : TokenKind)
  /-- the name behind `end` is not that of the package -/
  | packageNameMismatch (expected : String)
  | emptyFileName
  | lexical (fault : ScanFault)
  deriving DecidableEq, Repr

/-- The wording of a fault. -/
def ParseFault.message : ParseFault → String
  | unexpectedToken expected found =>
    "Expected token " ++ expected.label ++ ", got " ++ found.label
  | packageNameMismatch expected => "Incorrect package name! Expecting " ++ expected
  | emptyFileName => "Empty file provided"
  | lexical fault => fault.message

/-- A fault and the line of the file where it was found, 0 if there is none. -/
structure ParseError where
  file : String
  line : Nat
  fault : ParseFault
  deriving DecidableEq, Repr

/-- An error as it is told to the reader. -/
def ParseError.message (e : ParseError) : String :=
  "File: " ++ e.file ++ "; line: " ++ toString e.line ++ "; " ++ e.fault.message

end PackageDoc
