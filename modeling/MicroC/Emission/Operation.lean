import MicroC.Emission.Basic

/-!
The operations on a context as data, so that one can speak of every run of
them.
-/

namespace MicroC

open RiscV

inductive Operation where
  | enterScope
  | exitScope
  | declare (name : String) (storage : Storage)
  | resolve (name : String)
  | openFunction (name : String)
  | closeFunction
  | frame
  | slot (size : UInt32)
  /-- A slot that a name is bound to. It stays allocated if the name cannot be
  bound. -/
  | namedSlot (name : String) (size : UInt32)
  | scratch
  | label
  | setReturned
  | requireReachable
  /-- Emits a tree to a stream that may be limited. -/
  | emit (node : Node) (sink : Sink)

namespace Operation

inductive Reply where
  | done
  | storage (storage : Storage)
  | frame (frame : Frame)
  /-- The frame of a function that is finished. -/
  | finished (frame : Frame)
  | offset (offset : Int32)
  | register (reg : Reg)
  | label (label : String)
  | emitted (error : Option EmitError) (text : ByteArray)

def run : Operation → EmitM Reply
  | enterScope => do Emit.enterScope; return .done
  | exitScope => do Emit.exitScope; return .done
  | declare name storage => do Emit.declare name storage; return .done
  | resolve name => .storage <$> Emit.resolve name
  | openFunction name => do Emit.openFunction name; return .done
  | closeFunction => .finished <$> Emit.closeFunction
  | frame => .frame <$> Emit.frame
  | slot size => .offset <$> Emit.reserveSlot size
  | namedSlot name size => do
      let offset ← Emit.reserveSlot size
      Emit.declare name (.stack offset)
      return .offset offset
  | scratch => .register <$> Emit.takeScratch
  | label => .label <$> Emit.freshLabel
  | setReturned => do Emit.setReturned; return .done
  | requireReachable => do Emit.requireReachable; return .done
  | emit node sink => do
      let (error, text) ← Emit.onto sink node.emit
      return .emitted error text

end Operation

end MicroC
