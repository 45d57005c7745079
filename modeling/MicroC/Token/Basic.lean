import MicroC.Source.Location

/-!
Tokens: the words, literals and marks of source text, each with the stretch of
text it was read from.
-/

namespace MicroC

inductive Token.Kind where
  | literal (value : Int64)
  | identifier (name : String)
  | keywordInt
  | keywordReturn
  | keywordVoid
  | leftParen
  | rightParen
  | leftBrace
  | rightBrace
  | semicolon
  /-- The end of the text, which every list of tokens ends with. -/
  | endOfFile
  deriving DecidableEq

structure Token where
  kind : Token.Kind
  span : Span
  deriving DecidableEq

namespace Token

namespace Kind

def text : Kind → String
  | literal value => toString value.toInt
  | identifier name => name
  | keywordInt => "int"
  | keywordReturn => "return"
  | keywordVoid => "void"
  | leftParen => "("
  | rightParen => ")"
  | leftBrace => "\x7b"
  | rightBrace => "\x7d"
  | semicolon => ";"
  | endOfFile => "EOF"

/-- The keywords are words with a kind of their own; any other word is a name.
-/
def ofWord : String → Kind
  | "int" => keywordInt
  | "return" => keywordReturn
  | "void" => keywordVoid
  | name => identifier name

end Kind

def text (t : Token) : String := s!"'{t.kind.text}' at {t.span.start.text}"

end Token

end MicroC
