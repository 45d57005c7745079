/-!
The tree of a program. A list has an absent entry wherever the source has an
empty statement, so that every position keeps its number.
-/

namespace MicroC

/-- The types that a function may be declared with. -/
inductive TypeSpecifier where
  | int
  deriving DecidableEq

def TypeSpecifier.name : TypeSpecifier → String
  | int => "int"

inductive Node where
  | identifier (name : String)
  | constant (value : Int64)
  | ret (expression : Option Node)
  | declarator (name : String)
  | function (type : TypeSpecifier) (name : String) (body : Option Node)
  | list (entries : List (Option Node))

namespace Node

inductive Kind where
  | identifier | constant | ret | declarator | function | list
  deriving DecidableEq

def Kind.name : Kind → String
  | identifier => "identifier"
  | constant => "integer constant"
  | ret => "return statement"
  | declarator => "declarator"
  | function => "function definition"
  | list => "node list"

def kind : Node → Kind
  | identifier _ => .identifier
  | constant _ => .constant
  | ret _ => .ret
  | declarator _ => .declarator
  | function .. => .function
  | list _ => .list

mutual

def same : Node → Node → Bool
  | identifier name, identifier name' => name == name'
  | constant value, constant value' => value == value'
  | ret expression, ret expression' => sameOption expression expression'
  | declarator name, declarator name' => name == name'
  | function type name body, function type' name' body' =>
      type == type' && name == name' && sameOption body body'
  | list entries, list entries' => sameEntries entries entries'
  | _, _ => false

def sameOption : Option Node → Option Node → Bool
  | none, none => true
  | some node, some node' => same node node'
  | _, _ => false

def sameEntries : List (Option Node) → List (Option Node) → Bool
  | [], [] => true
  | entry :: rest, entry' :: rest' => sameOption entry entry' && sameEntries rest rest'
  | _, _ => false

end

mutual

theorem same_iff (node node' : Node) : same node node' ↔ node = node' := by
  cases node <;> cases node' <;> simp [same]
  · exact sameOption_iff ..
  · exact fun _ => sameOption_iff ..
  · exact sameEntries_iff ..

theorem sameOption_iff (node node' : Option Node) : sameOption node node' ↔ node = node' := by
  cases node <;> cases node' <;> simp [sameOption]
  exact same_iff ..

theorem sameEntries_iff (entries entries' : List (Option Node)) :
    sameEntries entries entries' ↔ entries = entries' := by
  cases entries <;> cases entries' <;> simp [sameEntries]
  rw [sameOption_iff, sameEntries_iff]

end

instance : DecidableEq Node := fun node node' => decidable_of_iff _ (same_iff node node')

end Node

end MicroC
