import MicroC.Source.Json
import MicroC.Token.Basic

/-!
The JSON form of tokens.
-/

namespace MicroC.Token

namespace Kind

/-- The kinds that are known by their name alone. -/
def plain : List (String × Kind) :=
  [("Int", keywordInt), ("Return", keywordReturn), ("Void", keywordVoid),
    ("LeftParen", leftParen), ("RightParen", rightParen), ("LeftBrace", leftBrace),
    ("RightBrace", rightBrace), ("Semicolon", semicolon), ("EndOfFile", endOfFile)]

def toJson : Kind → Json
  | literal value => .object [("IntLiteral", .integer value.toInt)]
  | identifier name => .object [("Identifier", .string name)]
  | keywordInt => .string "Int"
  | keywordReturn => .string "Return"
  | keywordVoid => .string "Void"
  | leftParen => .string "LeftParen"
  | rightParen => .string "RightParen"
  | leftBrace => .string "LeftBrace"
  | rightBrace => .string "RightBrace"
  | semicolon => .string "Semicolon"
  | endOfFile => .string "EndOfFile"

/-- A kind that is known by its name alone may also have a null beside it. -/
def ofJson? (j : Json) : Option Kind :=
  match j.variant? with
  | some ("IntLiteral", some value) => value.int64?.map literal
  | some ("Identifier", some name) => name.string?.map identifier
  | some (name, none) => plain.lookup name
  | some (name, some .null) => plain.lookup name
  | _ => none

end Kind

def toJson (t : Token) : Json := .object [("token_type", t.kind.toJson), ("span", t.span.toJson)]

def ofJson? (j : Json) : Option Token :=
  match j.fields? ["token_type", "span"] with
  | some [some kind, some span] => do
      return ⟨← Kind.ofJson? kind, ← Span.ofJson? span⟩
  | _ => none

end MicroC.Token
