/-
  HTML as a tree.

  A document is a list of nodes: text, line ends and elements, some of them
  void (without content and end tag).  `Node.render` is where a tree becomes
  HTML, and text and attribute values are escaped there and nowhere else.
-/
import PackageDoc.Html.Escape

namespace PackageDoc.Html

/-- The name and the value of an attribute. -/
abbrev Attribute := String × String

/-- An attribute in a start tag. -/
def Attribute.text (a : Attribute) : String := " " ++ a.1 ++ "=\"" ++ escape a.2 ++ "\""

/-- A start tag. -/
def startTag (tag : String) (attributes : List Attribute) : String :=
  "<" ++ tag ++ String.join (attributes.map Attribute.text) ++ ">"

/-- An end tag. -/
def endTag (tag : String) : String := "</" ++ tag ++ ">"

/-- An element that holds only text. -/
def textElement (tag : String) (attributes : List Attribute) (text : String) : String :=
  startTag tag attributes ++ escape text ++ endTag tag

/-- A text that ends with a line feed: one is added if it is missing. -/
def endLine (html : String) : String :=
  if html.toList.getLast? = some '\n' then html else html ++ "\n"

/-- A node of a document. -/
inductive Node where
  | text (s : String)
  | newline
  /-- the declaration that starts a document -/
  | doctype
  | element (tag : String) (attributes : List Attribute) (children : List Node)
  | void (tag : String) (attributes : List Attribute)

mutual

/-- The HTML of a node. -/
def Node.render : Node → String
  | .text s => escape s
  | .newline => "\n"
  | .doctype => "<!DOCTYPE html>"
  | .element tag attributes children =>
    startTag tag attributes ++ renderAll children ++ endTag tag
  | .void tag attributes => startTag tag attributes

/-- The HTML of some nodes in order. -/
def renderAll : List Node → String
  | [] => ""
  | n :: ns => n.render ++ renderAll ns

end

end PackageDoc.Html
