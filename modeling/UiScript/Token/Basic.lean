import UiScript.Diagnostic

/-!
# Tokens
-/

namespace UiScript

/-- The words that cannot be names. -/
inductive Keyword where
  | letWord | varWord | fnWord | returnWord | ifWord | elseWord | forWord | inWord
  | componentWord | stateWord | effectWord | styleWord | importWord | exportWord | fromWord
  | trueWord | falseWord | nullWord
  deriving DecidableEq, Inhabited

namespace Keyword

def spelling : Keyword → String
  | .letWord => "let"
  | .varWord => "var"
  | .fnWord => "fn"
  | .returnWord => "return"
  | .ifWord => "if"
  | .elseWord => "else"
  | .forWord => "for"
  | .inWord => "in"
  | .componentWord => "component"
  | .stateWord => "state"
  | .effectWord => "effect"
  | .styleWord => "style"
  | .importWord => "import"
  | .exportWord => "export"
  | .fromWord => "from"
  | .trueWord => "true"
  | .falseWord => "false"
  | .nullWord => "null"

def all : List Keyword := [
  .letWord, .varWord, .fnWord, .returnWord, .ifWord, .elseWord, .forWord, .inWord,
  .componentWord, .stateWord, .effectWord, .styleWord, .importWord, .exportWord, .fromWord,
  .trueWord, .falseWord, .nullWord]

def ofSpelling? (word : String) : Option Keyword := all.find? (·.spelling == word)

end Keyword

/-- Operators and delimiters. -/
inductive Symbol where
  | plus | minus | star | slash | percent | assign | eq | neq | lt | gt | lte | gte | and | or | not
  | arrow | dot | dotDot | pipe | question
  | leftParen | rightParen | leftBrace | rightBrace | leftBracket | rightBracket
  | comma | colon | semicolon | atSign | hash
  deriving DecidableEq, Inhabited

namespace Symbol

def spelling : Symbol → String
  | .plus => "+"
  | .minus => "-"
  | .star => "*"
  | .slash => "/"
  | .percent => "%"
  | .assign => "="
  | .eq => "=="
  | .neq => "!="
  | .lt => "<"
  | .gt => ">"
  | .lte => "<="
  | .gte => ">="
  | .and => "&&"
  | .or => "||"
  | .not => "!"
  | .arrow => "=>"
  | .dot => "."
  | .dotDot => ".."
  | .pipe => "|>"
  | .question => "?"
  | .leftParen => "("
  | .rightParen => ")"
  | .leftBrace => "\x7b"
  | .rightBrace => "\x7d"
  | .leftBracket => "["
  | .rightBracket => "]"
  | .comma => ","
  | .colon => ":"
  | .semicolon => ";"
  | .atSign => "@"
  | .hash => "#"

def name : Symbol → String
  | .plus => "PLUS"
  | .minus => "MINUS"
  | .star => "STAR"
  | .slash => "SLASH"
  | .percent => "PERCENT"
  | .assign => "ASSIGN"
  | .eq => "EQ"
  | .neq => "NEQ"
  | .lt => "LT"
  | .gt => "GT"
  | .lte => "LTE"
  | .gte => "GTE"
  | .and => "AND"
  | .or => "OR"
  | .not => "NOT"
  | .arrow => "ARROW"
  | .dot => "DOT"
  | .dotDot => "DOT_DOT"
  | .pipe => "PIPE"
  | .question => "QUESTION"
  | .leftParen => "LPAREN"
  | .rightParen => "RPAREN"
  | .leftBrace => "LBRACE"
  | .rightBrace => "RBRACE"
  | .leftBracket => "LBRACKET"
  | .rightBracket => "RBRACKET"
  | .comma => "COMMA"
  | .colon => "COLON"
  | .semicolon => "SEMICOLON"
  | .atSign => "AT"
  | .hash => "HASH"

/-- The symbols of two characters, which are tried before those of one. -/
def double : List Symbol := [.pipe, .arrow, .eq, .neq, .lte, .gte, .and, .or, .dotDot]

def single : List Symbol := [
  .plus, .minus, .star, .slash, .percent, .assign, .lt, .gt, .not, .question,
  .leftParen, .rightParen, .leftBrace, .rightBrace, .leftBracket, .rightBracket,
  .comma, .colon, .semicolon, .dot, .atSign, .hash]

end Symbol

namespace Token

inductive Kind where
  | number
  | string
  | identifier
  | keyword (word : Keyword)
  | symbol (mark : Symbol)
  | newline
  | endOfFile
  deriving DecidableEq, Inhabited

/-- What messages and listings call a kind. -/
def Kind.label : Kind → String
  | .number => "Number"
  | .string => "String"
  | .identifier => "Identifier"
  | .keyword word => word.spelling
  | .symbol mark => mark.spelling
  | .newline => "Newline"
  | .endOfFile => "EOF"

def Kind.name : Kind → String
  | .number => "NUMBER"
  | .string => "STRING"
  | .identifier => "IDENTIFIER"
  | .keyword word => String.ofList (word.spelling.toList.map Char.toUpper)
  | .symbol mark => mark.name
  | .newline => "NEWLINE"
  | .endOfFile => "EOF"

def Kind.ofLabel? (label : String) : Option Kind :=
  let kinds : List Kind := [.number, .string, .identifier, .newline, .endOfFile] ++
    Keyword.all.map .keyword ++ (Symbol.double ++ Symbol.single).map .symbol
  kinds.find? (·.label == label)

end Token

/-- A token: its kind, its value (the text of a string without quotes and escapes), where it starts,
and whether it is a back-quoted string. -/
structure Token where
  kind : Token.Kind
  value : String
  place : Place
  template : Bool := false
  deriving DecidableEq, Inhabited

namespace Token

/-- The value of a token that ends a line. -/
def newlineValue : String := "\\n"

def toValue (t : Token) : Value :=
  .dict [("type", .str t.kind.label), ("value", .str t.value), ("line", .int t.place.line),
    ("column", .int t.place.column)]

def display (t : Token) : String := s!"Token({t.kind.name}, {Text.quoted t.value}, {t.place.text})"

end Token

end UiScript
