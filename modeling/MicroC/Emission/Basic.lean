import MicroC.Emission.Session

/-!
The code of a tree.
-/

namespace MicroC

open RiscV

namespace Emit

/-- Puts a constant into the register of the return value. -/
def constant (value : Int64) : EmitM Unit := do
  if !(← context).insideFunction then
    fail (.unsupported (.constantOutside value))
  if value.toInt < Int32.minValue.toInt ∨ Int32.maxValue.toInt < value.toInt then
    fail (.unsupported (.constantRange value))
  instruction (.li .a0 value)

/-- Puts the value of a name into the register of the return value. A slot too
far from `s0` for an offset is addressed through `t0`. -/
def named (name : String) : EmitM Unit := do
  match ← resolve name with
  | .stack offset =>
      if fitsImmediate offset.toInt then
        instruction (.load .word .a0 offset .s0)
      else
        instructions [.li .t0 offset.toInt64, .add .t0 .s0 .t0, .load .word .a0 0 .t0]
  | .register reg => instruction (.mv .a0 reg)
  | .function _ => fail (.unsupported (.returnDesignator name))

def returnValue : Node → EmitM Unit
  | .constant value => constant value
  | .identifier name => named name
  | node => fail (.unsupported (.returnValue node.kind))

/-- Leaves the function. -/
def leave : EmitM Unit := do
  instructions (← contract (← frame).epilogue)
  setReturned

def returnStatement (expression : Option Node) : EmitM Unit := do
  if !(← context).insideFunction then
    fail (.unsupported .returnOutside)
  if let some expression := expression then
    returnValue expression
  leave

/-- Names, constants and declarators belong inside other nodes: as entries of
a list they would leave a stray piece of text. -/
def checkEntry : Node → EmitM Unit
  | .ret _ | .function .. | .list _ => pure ()
  | node => do
      if (← context).insideFunction then
        fail (.unsupported (.statement node.kind))
      else
        fail (.unsupported (.item node.kind))

/-- Runs a step on another stream, and gives what it wrote there together with
the error that stopped it. -/
def onto (sink : Sink) (step : EmitM Unit) : EmitM (Option EmitError × ByteArray) := fun s =>
  let (result, s') := step { s with sink }
  let restored := { s' with sink := s.sink }
  match result with
  | .ok () => (.ok (none, s'.sink.written), restored)
  | .error (.failure error) => (.ok (some error, s'.sink.written), restored)
  | .error (.breach breach) => (.error (.breach breach), restored)

end Emit

open Emit

mutual

def Node.emit : Node → EmitM Unit
  | .identifier name => writeText name
  | .constant value => Emit.constant value
  | .ret expression => returnStatement expression
  | .declarator name => instruction (.label name)
  | .function type name body => do
      openFunction name
      -- The size of the frame is known only when the body is done.
      let (error, code) ← onto .unlimited do
        Node.emitOption body
        if !(← context).returned then
          leave
      let frame ← closeFunction
      if let some error := error then
        fail error
      note (.functionEmitted name type (← contract frame.total))
      instruction .code
      instruction (.global name)
      instruction (.label name)
      instructions (← contract frame.prologue)
      write code
  | .list entries => Node.emitEntries entries

def Node.emitOption : Option Node → EmitM Unit
  | none => pure ()
  | some node => node.emit

def Node.emitEntries : List (Option Node) → EmitM Unit
  | [] => pure ()
  | none :: rest => Node.emitEntries rest
  | some node :: rest => do
      requireReachable
      checkEntry node
      node.emit
      Node.emitEntries rest

end

/-- The code of a whole program. -/
def emitAlone (target : Target) (root : Node) : EmitM Unit := do
  note (.emitting root.kind target)
  setContext (.empty target)
  root.emit

end MicroC
