import MicroC.RiscV.Instruction

/-!
The two base instruction sets. They differ in the width of a register.
-/

namespace MicroC.RiscV

inductive Target where
  | rv32 | rv64
  deriving DecidableEq

namespace Target

/-- Bytes in a register. -/
def registerBytes : Target → UInt32
  | rv32 => 4
  | rv64 => 8

/-- The access that moves a whole register. -/
def registerWidth : Target → Width
  | rv32 => .word
  | rv64 => .double

def name : Target → String
  | rv32 => "rv32"
  | rv64 => "rv64"

def ofName? : String → Option Target
  | "rv32" => some rv32
  | "rv64" => some rv64
  | _ => none

end Target

end MicroC.RiscV
