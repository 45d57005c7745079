import MicroC.Context.Scope
import MicroC.Journal.Quoted
import MicroC.RiscV.Target
import MicroC.Tree.Basic

/-!
What a run writes down about its progress.
-/

namespace MicroC.Journal

open RiscV

/-- How much a reader has to ask for to see a record. -/
inductive Level where
  | warn | info | debug | trace
  deriving DecidableEq

namespace Level

def name : Level → String
  | warn => "WARN"
  | info => "INFO"
  | debug => "DEBUG"
  | trace => "TRACE"

def rank : Level → Nat
  | warn => 1
  | info => 2
  | debug => 3
  | trace => 4

end Level

inductive Record where
  | tokenized (file : String) (count : Nat)
  | emitting (kind : Node.Kind) (target : Target)
  | scopeEntered (depth : Nat)
  | scopeLeft (depth : Nat)
  | bound (name : String) (storage : Storage) (depth : Nat)
  | slotAllocated (size : UInt32) (offset : Int32)
  | scratchGiven (reg : Reg) (function : String)
  | functionBegun (name : String)
  | functionEnded (name : String) (total locals : UInt32) (saved : List Reg)
  | functionEmitted (name : String) (type : TypeSpecifier) (total : UInt32)
  | parsing (path : String)
  | printed (path : String)
  | compiled (path : String)
  | staleRemoved (path : String)
  | staleKept (path reason : String)
  deriving DecidableEq

/-- A name with its first letter capitalised. -/
def capitalized (name : String) : String :=
  match name.toList with
  | [] => ""
  | c :: rest => .ofList (c.toUpper :: rest)

def storageText : Storage → String
  | .stack offset => s!"Stack \x7b offset: {offset.toInt} \x7d"
  | .register reg => s!"Register({capitalized reg.name})"
  | .function label => s!"Function \x7b label: {quoted label} \x7d"

def registersText (regs : List Reg) : String :=
  "[" ++ ", ".intercalate (regs.map fun reg => capitalized reg.name) ++ "]"

namespace Record

def level : Record → Level
  | tokenized .. | emitting .. | functionBegun _ | functionEnded .. | functionEmitted .. => .debug
  | scopeEntered _ | scopeLeft _ | bound .. | slotAllocated .. | scratchGiven .. => .trace
  | parsing _ | printed _ | compiled _ => .info
  | staleRemoved _ | staleKept .. => .warn

/-- The part of the program that a record comes from. -/
def source : Record → String
  | tokenized .. => "rvcc_frontend"
  | emitting .. => "rvcc_codegen"
  | scopeEntered _ | scopeLeft _ | bound .. | slotAllocated .. | scratchGiven .. | functionBegun _
  | functionEnded .. => "rvcc_codegen::context"
  | functionEmitted .. => "rvcc_codegen::emit"
  | parsing _ | printed _ | compiled _ | staleRemoved _ | staleKept .. => "rvcc"

def text : Record → String
  | tokenized file count => s!"{file}: {count} tokens"
  | emitting kind target => s!"emitting {kind.name} for {capitalized target.name}"
  | scopeEntered depth => s!"entered scope {depth}"
  | scopeLeft depth => s!"left scope {depth}"
  | bound name storage depth => s!"bind '{name}' -> {storageText storage} in scope {depth}"
  | slotAllocated size offset => s!"allocated {size} byte slot at {offset.toInt}(s0)"
  | scratchGiven reg function => s!"scratch register {reg.name} handed out in '{function}'"
  | functionBegun name => s!"begin function '{name}'"
  | functionEnded name total locals saved =>
      s!"end function '{name}': frame {total} bytes, locals {locals}, saved {registersText saved}"
  | functionEmitted name type total => s!"function '{name}' ({type.name}): {total} byte frame"
  | parsing path => s!"Parsing {path}"
  | printed path => s!"Printed parsed AST to {path}"
  | compiled path => s!"Compiled to {path}"
  | staleRemoved path => s!"Removed stale {path}"
  | staleKept path reason => s!"Could not remove {path}: {reason}"

end Record

/-- The records that a reader who asks for `level` sees, in order. -/
def visible (level : Level) (records : List Record) : List Record :=
  records.filter fun record => record.level.rank ≤ level.rank

end MicroC.Journal
