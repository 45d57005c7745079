/-!
The integer registers under the names of the standard calling convention, in
the order `zero`, `ra`, `sp`, `gp`, `tp`, then the temporaries, the saved
registers and the arguments.
-/

namespace MicroC.RiscV

inductive Reg where
  | zero | ra | sp | gp | tp
  | t0 | t1 | t2 | t3 | t4 | t5 | t6
  | s0 | s1 | s2 | s3 | s4 | s5 | s6 | s7 | s8 | s9 | s10 | s11
  | a0 | a1 | a2 | a3 | a4 | a5 | a6 | a7
  deriving DecidableEq

namespace Reg

def all : List Reg :=
  [zero, ra, sp, gp, tp, t0, t1, t2, t3, t4, t5, t6,
    s0, s1, s2, s3, s4, s5, s6, s7, s8, s9, s10, s11,
    a0, a1, a2, a3, a4, a5, a6, a7]

def name : Reg → String
  | zero => "zero" | ra => "ra" | sp => "sp" | gp => "gp" | tp => "tp"
  | t0 => "t0" | t1 => "t1" | t2 => "t2" | t3 => "t3" | t4 => "t4" | t5 => "t5" | t6 => "t6"
  | s0 => "s0" | s1 => "s1" | s2 => "s2" | s3 => "s3" | s4 => "s4" | s5 => "s5"
  | s6 => "s6" | s7 => "s7" | s8 => "s8" | s9 => "s9" | s10 => "s10" | s11 => "s11"
  | a0 => "a0" | a1 => "a1" | a2 => "a2" | a3 => "a3"
  | a4 => "a4" | a5 => "a5" | a6 => "a6" | a7 => "a7"

def ofName? (text : String) : Option Reg := all.find? fun r => r.name == text

/-- The place of a register in `all`. -/
def index (r : Reg) : Nat := all.idxOf r

def sort (rs : List Reg) : List Reg := rs.mergeSort fun a b => a.index ≤ b.index

/-- Handed out first to hold intermediate values: a callee may overwrite them.
-/
def temporaries : List Reg := [t1, t2, t3, t4, t5, t6]

/-- Handed out next: a function that uses one must preserve it. -/
def preserved : List Reg := [s1, s2, s3, s4, s5, s6, s7, s8, s9, s10, s11]

end Reg

end MicroC.RiscV
