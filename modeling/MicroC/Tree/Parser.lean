import MicroC.Source.Diagnostic
import MicroC.Token.Basic
import MicroC.Tree.Basic

/-!
Reading a tree from tokens.

    program               function definition, at least once
    function definition   type specifier, declarator, '(', 'void' or nothing,
                          ')', compound statement
    compound statement    left brace, statements, right brace
    statement             'return', expression or nothing, ';'
                          or only ';'
    expression            literal or name

The end of the text is never passed, and a list of tokens that lacks it is
taken to go on with it.
-/

namespace MicroC

inductive ParseError where
  | unexpected (expected : String) (found : Token)
  | emptyProgram (location : Location)
  deriving DecidableEq

namespace ParseError

def message : ParseError → String
  | unexpected expected found => s!"Expected {expected}, found {found.text}"
  | emptyProgram location =>
    s!"Translation unit contains no function definitions at {location.text}"

def toDiagnostic : ParseError → Diagnostic
  | unexpected expected found =>
      .grammar found.span.start s!"Expected {expected}, found '{found.kind.text}'"
  | emptyProgram location => .grammar location "Translation unit contains no function definitions"

end ParseError

/-- A reader of tokens leaves those that it did not pass, also when it fails. -/
abbrev ParseM := ExceptT ParseError (StateM (List Token))

namespace Parse

/-- The end of the text as it stands after the last token. -/
def missing : Token := ⟨.endOfFile, .point .unknown⟩

def peek (tokens : List Token) : Token := tokens.head?.getD missing

def kind : ParseM Token.Kind := return (peek (← get)).kind

/-- Passes a token that is not the end of the text. -/
def pass : ParseM Unit := modify List.tail

def unexpected {α : Type} (expected : String) : ParseM α := do
  throw (.unexpected expected (peek (← get)))

/-- Passes a token of one kind, which `place` should have. -/
def expect (wanted : Token.Kind) (place : String) : ParseM Unit := do
  if (← kind) = wanted then pass else unexpected s!"'{wanted.text}' in {place}"

def typeSpecifier : ParseM TypeSpecifier := do
  match ← kind with
  | .keywordInt => pass; return .int
  | _ => unexpected "type specifier"

/-- A name that is declared. -/
def declarator : ParseM String := do
  match ← kind with
  | .identifier name => pass; return name
  | _ => unexpected "identifier in declarator"

def expression : ParseM Node := do
  match ← kind with
  | .literal value => pass; return .constant value
  | .identifier name => pass; return .identifier name
  | _ => unexpected "expression"

/-- What follows the word that begins a return statement. -/
def returned : ParseM Node := do
  let value ← if (← kind) = .semicolon then pure none else some <$> expression
  expect .semicolon "return statement"
  return .ret value

/-- An empty statement is read as an absent one. -/
def statement : ParseM (Option Node) := do
  match ← kind with
  | .keywordReturn => pass; some <$> returned
  | .semicolon => pass; return none
  | _ => unexpected "statement"

/-- Reads at most `limit` items with `item`, as long as `more` holds of the next
kind of token. -/
def atMost {α : Type} (more : Token.Kind → Bool) (item : ParseM α) (limit : Nat)
    (tokens : List Token) : Except ParseError (List α) × List Token :=
  match limit with
  | 0 => (.ok [], tokens)
  | limit + 1 =>
      if more (peek tokens).kind then
        match item.run tokens with
        | (.error e, rest) => (.error e, rest)
        | (.ok a, rest) =>
            let (as, rest) := atMost more item limit rest
            (as.map (a :: ·), rest)
      else (.ok [], tokens)

/-- Reads items with `item` as long as `more` holds of the next kind of token.
An item passes a token or more, so there are no more items than tokens. -/
def many {α : Type} (more : Token.Kind → Bool) (item : ParseM α) : ParseM (List α) :=
  fun tokens => atMost more item tokens.length tokens

def compoundStatement : ParseM Node := do
  expect .leftBrace "compound statement"
  let entries ← many (fun kind => kind != .rightBrace && kind != .endOfFile) statement
  expect .rightBrace "compound statement"
  return .list entries

def functionDefinition : ParseM Node := do
  let type ← typeSpecifier
  let name ← declarator
  expect .leftParen "function declarator"
  if (← kind) = .keywordVoid then pass
  expect .rightParen "function declarator"
  let body ← compoundStatement
  return .function type name (some body)

def program : ParseM Node := do
  let items ← many (· != .endOfFile) functionDefinition
  if items.isEmpty then
    throw (.emptyProgram (peek (← get)).span.start)
  return .list (items.map some)

end Parse

/-- The tree of a whole list of tokens. -/
def parse (tokens : List Token) : Except ParseError Node := (Parse.program.run tokens).1

end MicroC
