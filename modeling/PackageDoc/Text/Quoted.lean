/-
  Quoted text, for showing a piece of source on one line.

  The quotation stands between double quotes; a quote and a backslash in it are
  marked by a backslash, line ends, tabs and the null character have their
  letter, and whatever else cannot be shown by itself is written as its code in
  hexadecimal.
-/
import PackageDoc.Text.Printable

namespace PackageDoc.Text

/-- A code in hexadecimal, between braces. -/
def quotedCode (c : Char) : List Char :=
  ['\\', 'u', '\x7b'] ++ Nat.toDigits 16 c.toNat ++ ['\x7d']

/-- A character as it stands inside a quotation. -/
def quotedChar (c : Char) : List Char :=
  if c = '\t' then ['\\', 't']
  else if c = '\r' then ['\\', 'r']
  else if c = '\n' then ['\\', 'n']
  else if c = '\x00' then ['\\', '0']
  else if c = '"' then ['\\', '"']
  else if c = '\\' then ['\\', '\\']
  else if isCombining c || !isPrintable c then quotedCode c
  else [c]

/-- A text between double quotes, on one line. -/
def quoted (s : String) : String :=
  String.ofList (['"'] ++ s.toList.flatMap quotedChar ++ ['"'])

end PackageDoc.Text
