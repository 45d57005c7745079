import MicroC.RiscV.Register

/-!
The instructions, pseudo-instructions and directives that compiled functions
are made of, and their assembler text.
-/

namespace MicroC.RiscV

/-- How many bytes a memory access moves: four or eight. -/
inductive Width where
  | word | double
  deriving DecidableEq

def Width.letter : Width → String
  | word => "w"
  | double => "d"

inductive Instr where
  /-- What follows belongs to the code section. -/
  | code
  | global (name : String)
  | label (name : String)
  | add (rd left right : Reg)
  | sub (rd left right : Reg)
  | addi (rd rs : Reg) (immediate : Int32)
  | load (width : Width) (rd : Reg) (offset : Int32) (base : Reg)
  | store (width : Width) (rs : Reg) (offset : Int32) (base : Reg)
  | li (rd : Reg) (immediate : Int64)
  | mv (rd rs : Reg)
  | ret
  deriving DecidableEq

namespace Instr

def text : Instr → String
  | code => ".text"
  | global name => s!".globl {name}"
  | label name => s!"{name}:"
  | add rd left right => s!"add {rd.name}, {left.name}, {right.name}"
  | sub rd left right => s!"sub {rd.name}, {left.name}, {right.name}"
  | addi rd rs immediate => s!"addi {rd.name}, {rs.name}, {immediate.toInt}"
  | load width rd offset base => s!"l{width.letter} {rd.name}, {offset.toInt}({base.name})"
  | store width rs offset base => s!"s{width.letter} {rs.name}, {offset.toInt}({base.name})"
  | li rd immediate => s!"li {rd.name}, {immediate.toInt}"
  | mv rd rs => s!"mv {rd.name}, {rs.name}"
  | ret => "ret"

/-- Directives and labels start a line; all else is indented. -/
def startsAtMargin : Instr → Bool
  | code | global _ | label _ => true
  | _ => false

def line (i : Instr) : String :=
  (if i.startsAtMargin then i.text else "    " ++ i.text) ++ "\n"

end Instr

/-- Whether a value can be the immediate of `addi`, or the offset of a load or
store. -/
def fitsImmediate (value : Int) : Bool := -2048 ≤ value && value ≤ 2047

end MicroC.RiscV
