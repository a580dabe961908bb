/-
  Text inside HTML.

  The five characters that mean something in HTML are written as entities.
-/
namespace PackageDoc.Html

/-- A character as it stands in HTML text and in attribute values. -/
def escapeChar (c : Char) : List Char :=
  if c = '&' then "&amp;".toList
  else if c = '<' then "&lt;".toList
  else if c = '>' then "&gt;".toList
  else if c = '"' then "&quot;".toList
  else if c = '\'' then "&#39;".toList
  else [c]

/-- A text as it stands in HTML. -/
def escape (s : String) : String := String.ofList (s.toList.flatMap escapeChar)

end PackageDoc.Html
