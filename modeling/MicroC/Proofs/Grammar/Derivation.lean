import Mathlib
import MicroC.Token.Basic
import MicroC.Tree.Basic

/-!
Derivations of the grammar as data: one type for each production, the kinds of
token that a derivation reads off, and the tree that it stands for. A sentence
is what some derivation reads off.
-/

namespace MicroC.Grammar

open Token (Kind)

inductive Expression where
  | literal (value : Int64)
  | named (name : String)
  deriving DecidableEq

inductive Statement where
  | empty
  | ret (value : Option Expression)
  deriving DecidableEq

structure Definition where
  name : String
  /-- Whether the word `void` stands between the parentheses. -/
  void : Bool
  body : List Statement
  deriving DecidableEq

abbrev Program := List Definition

namespace Expression

def kinds : Expression → List Kind
  | literal value => [.literal value]
  | named name => [.identifier name]

def tree : Expression → Node
  | literal value => .constant value
  | named name => .identifier name

end Expression

namespace Statement

/-- What follows the word that begins a return statement. -/
def valueKinds (value : Option Expression) : List Kind :=
  (value.map Expression.kinds).getD [] ++ [.semicolon]

def kinds : Statement → List Kind
  | empty => [.semicolon]
  | ret value => .keywordReturn :: valueKinds value

def tree : Statement → Option Node
  | empty => none
  | ret value => some (.ret (value.map Expression.tree))

/-- What a statement returns, if it is a return statement. -/
def returned? : Statement → Option (Option Expression)
  | empty => none
  | ret value => some value

end Statement

/-- The statements between two braces, and the braces. -/
def blockKinds (body : List Statement) : List Kind :=
  .leftBrace :: body.flatMap Statement.kinds ++ [.rightBrace]

def blockTree (body : List Statement) : Node := .list (body.map Statement.tree)

namespace Definition

def parameterKinds (void : Bool) : List Kind := if void then [.keywordVoid] else []

def kinds (d : Definition) : List Kind :=
  [.keywordInt, .identifier d.name, .leftParen] ++ parameterKinds d.void ++
    .rightParen :: blockKinds d.body

def tree (d : Definition) : Node := .function .int d.name (some (blockTree d.body))

/-- What the return statements of a function return, in order. -/
def returns (d : Definition) : List (Option Expression) := d.body.filterMap Statement.returned?

end Definition

namespace Program

def kinds (p : Program) : List Kind := p.flatMap Definition.kinds

def tree (p : Program) : Node := .list (p.map fun d => some d.tree)

end Program

end MicroC.Grammar
