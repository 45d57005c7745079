import MicroC.Tree.Basic

/-!
A tree as source text. Absent entries of a list leave no trace in it.
-/

namespace MicroC.Node

mutual

def print : Node → String
  | identifier name => name
  | constant value => toString value.toInt
  | ret none => "return;\n"
  | ret (some expression) => "return " ++ expression.print ++ ";\n"
  | declarator name => name
  | function type name body =>
      type.name ++ " " ++ name ++ "() \x7b\n" ++ printOption body ++ "\x7d\n"
  | list entries => printEntries entries

def printOption : Option Node → String
  | none => ""
  | some node => node.print

def printEntries : List (Option Node) → String
  | [] => ""
  | entry :: rest => printOption entry ++ printEntries rest

end

end MicroC.Node
