/-
  Kinds of tokens.

  A token of a package specification is a name, a number, a string, an
  operator, a reserved word or a comment; a character that begins none of them
  is illegal.  Reserved words are recognised in their lower-case spelling.
-/
namespace PackageDoc

/-- Operators and punctuation. -/
inductive Operator where
  | plus | minus | star | slash | percent | concat | power | equal | notEqual | greater | less
  | greaterEqual | lessEqual | assign | range | openParen | openBracket | closeParen
  | closeBracket | comma | dot | semicolon | colon | quote | dollar
  deriving DecidableEq, Repr

/-- How an operator is written. -/
def Operator.spelling : Operator → String
  | .plus => "+"
  | .minus => "-"
  | .star => "*"
  | .slash => "/"
  | .percent => "%"
  | .concat => "||"
  | .power => "**"
  | .equal => "="
  | .notEqual => "<>"
  | .greater => ">"
  | .less => "<"
  | .greaterEqual => ">="
  | .lessEqual => "<="
  | .assign => ":="
  | .range => ".."
  | .openParen => "("
  | .openBracket => "["
  | .closeParen => ")"
  | .closeBracket => "]"
  | .comma => ","
  | .dot => "."
  | .semicolon => ";"
  | .colon => ":"
  | .quote => "\""
  | .dollar => "$"

/-- The name of an operator in listings of tokens. -/
def Operator.name : Operator → String
  | .plus => "Add"
  | .minus => "Sub"
  | .star => "Mul"
  | .slash => "Div"
  | .percent => "Rem"
  | .concat => "Concat"
  | .power => "Exp"
  | .equal => "Eql"
  | .notEqual => "Neq"
  | .greater => "Grt"
  | .less => "Lss"
  | .greaterEqual => "Geq"
  | .lessEqual => "Leq"
  | .assign => "Assign"
  | .range => "Range"
  | .openParen => "LParen"
  | .openBracket => "LBrack"
  | .closeParen => "RParen"
  | .closeBracket => "RBrack"
  | .comma => "Comma"
  | .dot => "Dot"
  | .semicolon => "Semicolon"
  | .colon => "Colon"
  | .quote => "DQuote"
  | .dollar => "Dollar"

/-- Reserved words. -/
inductive Keyword where
  | like | between | and | or | not | as | is | default | begin | end_ | if_ | else_ | elsif
  | null | record | procedure | function | type | return_ | rowtype | package | in_ | out
  | pipelined | deterministic | resultCache | pragma | exception | constant | cursor | table
  | varray | of | create | index | by_ | ref | body | subtype
  deriving DecidableEq, Repr

namespace Keyword

/-- How a reserved word is written. -/
def spelling : Keyword → String
  | .like => "like"
  | .between => "between"
  | .and => "and"
  | .or => "or"
  | .not => "not"
  | .as => "as"
  | .is => "is"
  | .default => "default"
  | .begin => "begin"
  | .end_ => "end"
  | .if_ => "if"
  | .else_ => "else"
  | .elsif => "elsif"
  | .null => "null"
  | .record => "record"
  | .procedure => "procedure"
  | .function => "function"
  | .type => "type"
  | .return_ => "return"
  | .rowtype => "rowtype"
  | .package => "package"
  | .in_ => "in"
  | .out => "out"
  | .pipelined => "pipelined"
  | .deterministic => "deterministic"
  | .resultCache => "result_cache"
  | .pragma => "pragma"
  | .exception => "exception"
  | .constant => "constant"
  | .cursor => "cursor"
  | .table => "table"
  | .varray => "varray"
  | .of => "of"
  | .create => "create"
  | .index => "index"
  | .by_ => "by"
  | .ref => "ref"
  | .body => "body"
  | .subtype => "subtype"

/-- The name of a reserved word in listings of tokens. -/
def name : Keyword → String
  | .like => "Like"
  | .between => "Between"
  | .and => "And"
  | .or => "Or"
  | .not => "Not"
  | .as => "As"
  | .is => "Is"
  | .default => "Default"
  | .begin => "Begin"
  | .end_ => "End"
  | .if_ => "If"
  | .else_ => "Else"
  | .elsif => "Elsif"
  | .null => "Null"
  | .record => "Record"
  | .procedure => "Procedure"
  | .function => "Function"
  | .type => "Type"
  | .return_ => "Return"
  | .rowtype => "Rowtype"
  | .package => "Package"
  | .in_ => "In"
  | .out => "Out"
  | .pipelined => "Pipelined"
  | .deterministic => "Deterministic"
  | .resultCache => "ResultCache"
  | .pragma => "Pragma"
  | .exception => "Exception"
  | .constant => "Constant"
  | .cursor => "Cursor"
  | .table => "Table"
  | .varray => "Varray"
  | .of => "Of"
  | .create => "Create"
  | .index => "Index"
  | .by_ => "By"
  | .ref => "Ref"
  | .body => "Body"
  | .subtype => "Subtype"

/-- All reserved words. -/
def all : List Keyword :=
  [.like, .between, .and, .or, .not, .as, .is, .default, .begin, .end_, .if_, .else_, .elsif,
   .null, .record, .procedure, .function, .type, .return_, .rowtype, .package, .in_, .out,
   .pipelined, .deterministic, .resultCache, .pragma, .exception, .constant, .cursor, .table,
   .varray, .of, .create, .index, .by_, .ref, .body, .subtype]

/-- The reserved word that is written `word`. -/
def ofWord? (word : String) : Option Keyword := all.find? (·.spelling == word)

end Keyword

/-- What a token is. -/
inductive TokenKind where
  /-- the end of the input -/
  | eof
  | comment
  | ident
  | number
  | string
  /-- a character that begins no token -/
  | illegal
  | op (o : Operator)
  | keyword (k : Keyword)
  deriving DecidableEq, Repr

namespace TokenKind

/-- The spelling of a kind that has only one. -/
def spelling? : TokenKind → Option String
  | op o => some o.spelling
  | keyword k => some k.spelling
  | _ => none

/-- Whether the kind is a reserved word. -/
def isKeyword : TokenKind → Bool
  | keyword _ => true
  | _ => false

/-- Whether a token of this kind is a word: it has to be set apart by a space
    from a word before it. -/
def isWord : TokenKind → Bool
  | ident | number | string | keyword _ => true
  | _ => false

/-- The name of a kind in messages. -/
def label : TokenKind → String
  | eof => "EOF"
  | comment => "COMMENT"
  | ident => "IDENT"
  | number => "NUMBER"
  | string => "STRING"
  | illegal => "ILLEGAL"
  | op o => o.spelling
  | keyword k => k.spelling

/-- The name of a kind in listings of tokens. -/
def name : TokenKind → String
  | eof => "Eof"
  | comment => "Comment"
  | ident => "Ident"
  | number => "Number"
  | string => "String"
  | illegal => "Illegal"
  | op o => o.name
  | keyword k => k.name

end TokenKind

end PackageDoc
