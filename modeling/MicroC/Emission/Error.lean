import MicroC.Tree.Basic

/-!
Why no code is emitted for a tree.
-/

namespace MicroC

/-- What a tree may say and the emitted code cannot. -/
inductive Construct where
  | nestedFunction (name outer : String)
  | constantOutside (value : Int64)
  | constantRange (value : Int64)
  | returnOutside
  | returnValue (kind : Node.Kind)
  | returnDesignator (name : String)
  | afterReturn
  | statement (kind : Node.Kind)
  | item (kind : Node.Kind)
  deriving DecidableEq

def Construct.text : Construct → String
  | nestedFunction name outer => s!"function '{name}' defined inside '{outer}'"
  | constantOutside value => s!"integer constant {value.toInt} outside a function"
  | constantRange value => s!"integer constant {value.toInt} does not fit in int"
  | returnOutside => "return statement outside a function"
  | returnValue kind => s!"{kind.name} as a return value"
  | returnDesignator name => s!"function designator '{name}' as a return value"
  | afterReturn => "statement after return"
  | statement kind => s!"{kind.name} as a statement"
  | item kind => s!"{kind.name} as a top-level item"

inductive StreamError where
  | full
  | notText
  deriving DecidableEq

def StreamError.text : StreamError → String
  | full => "stream full"
  | notText => "invalid utf-8 sequence"

inductive EmitError where
  | unbound (name : String)
  | redefinition (name : String)
  | unsupported (construct : Construct)
  | outOfRegisters (function : String)
  | stream (error : StreamError)
  deriving DecidableEq

def EmitError.message : EmitError → String
  | unbound name => s!"Unbound identifier '{name}'"
  | redefinition name => s!"Redefinition of '{name}'"
  | unsupported construct => s!"Unsupported construct: {construct.text}"
  | outOfRegisters function => s!"Ran out of scratch registers in function '{function}'"
  | stream error => s!"Failed to write assembly: {error.text}"

end MicroC
