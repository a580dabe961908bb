/-
  Documentation pages for the package specifications of PL/SQL.
-/
import PackageDoc.Comment
import PackageDoc.Comment.Attribution
import PackageDoc.Decl.Field
import PackageDoc.Decl.Item
import PackageDoc.Discovery
import PackageDoc.Disk.Basic
import PackageDoc.Disk.Path
import PackageDoc.Disk.Tree
import PackageDoc.Event
import PackageDoc.Html.DocText
import PackageDoc.Html.Escape
import PackageDoc.Html.Node
import PackageDoc.Html.Page
import PackageDoc.LineTable
import PackageDoc.Main
import PackageDoc.Options
import PackageDoc.Package
import PackageDoc.ParseError
import PackageDoc.Parser.Basic
import PackageDoc.Parser.Decls
import PackageDoc.Parser.Fields
import PackageDoc.Parser.Package
import PackageDoc.Parser.TypeText
import PackageDoc.Proofs.Checked.Basic
import PackageDoc.Proofs.Checked.Counters
import PackageDoc.Proofs.Checked.Html
import PackageDoc.Proofs.Checked.Parser
import PackageDoc.Proofs.Checked.Productions
import PackageDoc.Proofs.Checked.Program
import PackageDoc.Proofs.Checked.Reader
import PackageDoc.Proofs.Checked.Scanner
import PackageDoc.Proofs.Comment.Attribution
import PackageDoc.Proofs.Comment.DocText
import PackageDoc.Proofs.Comment.Lookahead
import PackageDoc.Proofs.Comment.Returns
import PackageDoc.Proofs.Comment.Rule
import PackageDoc.Proofs.Comment.Runs
import PackageDoc.Proofs.Decl.Canonical
import PackageDoc.Proofs.Decl.Recast
import PackageDoc.Proofs.Discovery
import PackageDoc.Proofs.Disk.Directories
import PackageDoc.Proofs.Disk.Path
import PackageDoc.Proofs.Disk.Reordered
import PackageDoc.Proofs.Disk.Tree
import PackageDoc.Proofs.Html.Anchors
import PackageDoc.Proofs.Html.DocBlocks
import PackageDoc.Proofs.Html.Elements
import PackageDoc.Proofs.Html.Entities
import PackageDoc.Proofs.Html.Entries
import PackageDoc.Proofs.Html.Escape
import PackageDoc.Proofs.Html.Ids
import PackageDoc.Proofs.Html.Page
import PackageDoc.Proofs.Html.Reading
import PackageDoc.Proofs.LineReports
import PackageDoc.Proofs.LineTable
import PackageDoc.Proofs.Parser.Alike
import PackageDoc.Proofs.Parser.Blame
import PackageDoc.Proofs.Parser.Body
import PackageDoc.Proofs.Parser.BodyCount
import PackageDoc.Proofs.Parser.Closing
import PackageDoc.Proofs.Parser.Composition
import PackageDoc.Proofs.Parser.DeclaredTexts
import PackageDoc.Proofs.Parser.Disjoint
import PackageDoc.Proofs.Parser.Docs
import PackageDoc.Proofs.Parser.Ensures
import PackageDoc.Proofs.Parser.Extent
import PackageDoc.Proofs.Parser.FieldTokens
import PackageDoc.Proofs.Parser.Laws
import PackageDoc.Proofs.Parser.Layout
import PackageDoc.Proofs.Parser.LeadDocs
import PackageDoc.Proofs.Parser.Likeness
import PackageDoc.Proofs.Parser.LineEnds
import PackageDoc.Proofs.Parser.Listing
import PackageDoc.Proofs.Parser.Local
import PackageDoc.Proofs.Parser.Names
import PackageDoc.Proofs.Parser.Outcome
import PackageDoc.Proofs.Parser.Piece
import PackageDoc.Proofs.Parser.Place
import PackageDoc.Proofs.Parser.Reassembly
import PackageDoc.Proofs.Parser.Segments
import PackageDoc.Proofs.Parser.Shift
import PackageDoc.Proofs.Parser.Source
import PackageDoc.Proofs.Parser.Spans
import PackageDoc.Proofs.Parser.Texts
import PackageDoc.Proofs.Parser.Trail
import PackageDoc.Proofs.Parser.TrailingComments
import PackageDoc.Proofs.Parser.Words
import PackageDoc.Proofs.Run.Basic
import PackageDoc.Proofs.Run.Pages
import PackageDoc.Proofs.Run.Site
import PackageDoc.Proofs.Run.Writing
import PackageDoc.Proofs.Text.Encoding
import PackageDoc.Proofs.Text.LetterCase
import PackageDoc.Proofs.Text.LineEnds
import PackageDoc.Proofs.Text.Lines
import PackageDoc.Proofs.Text.Titlecase
import PackageDoc.Proofs.Token.LineEnds
import PackageDoc.Proofs.Token.Lines
import PackageDoc.Proofs.Token.Reading
import PackageDoc.Proofs.Token.Scan
import PackageDoc.Proofs.Token.Separation
import PackageDoc.Proofs.Token.Spelling
import PackageDoc.Proofs.Token.Tiling
import PackageDoc.Proofs.Token.WordCase
import PackageDoc.Run
import PackageDoc.Site
import PackageDoc.Site.Script
import PackageDoc.Site.Stylesheet
import PackageDoc.Span
import PackageDoc.Text.Alphabetic
import PackageDoc.Text.Blank
import PackageDoc.Text.CodeRange
import PackageDoc.Text.LetterCase
import PackageDoc.Text.Lines
import PackageDoc.Text.Printable
import PackageDoc.Text.Quoted
import PackageDoc.Text.Utf8
import PackageDoc.Token.Basic
import PackageDoc.Token.Kind
import PackageDoc.Token.Scanner
