import MicroC.Context.Basic
import MicroC.Emission.Sink
import MicroC.Frame.Code
import MicroC.Journal.Record

/-!
The state that emission threads: the context, the stream that is written to,
and the journal. A step that stops leaves all three as they are at that point.
-/

namespace MicroC

open RiscV
open Journal (Record)

structure Session where
  context : Context
  sink : Sink
  /-- The records, the last one first. -/
  journal : List Record

abbrev EmitM := ExceptT (Halt EmitError) (StateM Session)

namespace Session

def ofContext (context : Context) : Session := ⟨context, .unlimited, []⟩

/-- The records in the order in which they were made. -/
def records (s : Session) : List Record := s.journal.reverse

end Session

namespace Emit

def context : EmitM Context := return (← get).context

def setContext (context : Context) : EmitM Unit := modify fun s => { s with context }

def note (record : Record) : EmitM Unit :=
  modify fun s => { s with journal := record :: s.journal }

def fail {α : Type} (error : EmitError) : EmitM α := throw (.failure error)

/-- The result of a step that may break a contract. -/
def contract {α : Type} : Except Breach α → EmitM α
  | .ok a => pure a
  | .error breach => throw (.breach breach)

/-- The result of a step that may refuse the program. -/
def permitted {α : Type} : Except EmitError α → EmitM α
  | .ok a => pure a
  | .error error => fail error

def write (bytes : ByteArray) : EmitM Unit := do
  let (result, sink) := (← get).sink.write bytes
  modify fun s => { s with sink }
  permitted result

def writeText (text : String) : EmitM Unit := write text.toUTF8

def instruction (i : Instr) : EmitM Unit := writeText i.line

def instructions : List Instr → EmitM Unit
  | [] => pure ()
  | i :: rest => do
      instruction i
      instructions rest

def enterScope : EmitM Unit := do
  let entered := (← context).enterScope
  setContext entered
  note (.scopeEntered entered.depth)

def exitScope : EmitM Unit := do
  let outer ← contract (← context).exitScope
  setContext outer
  note (.scopeLeft (outer.depth + 1))

def declare (name : String) (storage : Storage) : EmitM Unit := do
  let c ← context
  let bound ← permitted (c.declare name storage)
  note (.bound name storage c.depth)
  setContext bound

def resolve (name : String) : EmitM Storage := do permitted ((← context).resolve name)

def openFunction (name : String) : EmitM Unit := do
  let begun ← permitted ((← context).openFunction name)
  setContext begun
  note (.scopeEntered begun.depth)
  note (.functionBegun name)

/-- Forgets the current function, then leaves its scope, and gives its frame. -/
def closeFunction : EmitM Frame := do
  let c ← context
  match c.function with
  | none => throw (.breach .endOutsideFunction)
  | some state =>
      setContext { c with function := none }
      exitScope
      let total ← contract state.frame.total
      note (.functionEnded state.name total state.frame.locals state.frame.saved)
      return state.frame

def frame : EmitM Frame := do contract (← context).currentFrame

def reserveSlot (size : UInt32) : EmitM Int32 := do
  let (offset, c) ← contract ((← context).reserveSlot size)
  setContext c
  note (.slotAllocated size offset)
  return offset

def takeScratch : EmitM Reg := do
  match (← context).takeScratch with
  | .error stop => throw stop
  | .ok (reg, c) =>
      setContext c
      note (.scratchGiven reg (c.currentName?.getD ""))
      return reg

def freshLabel : EmitM String := do
  let (label, c) ← contract (← context).freshLabel
  setContext c
  return label

def setReturned : EmitM Unit := do
  setContext (← contract (← context).setReturned)

def requireReachable : EmitM Unit := do permitted (← context).requireReachable

end Emit

end MicroC
