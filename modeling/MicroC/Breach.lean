import MicroC.RiscV.Register

/-!
Broken contracts. A caller that breaks one is wrong, unlike a user whose
program is refused, so a breach is kept apart from every error that describes
a program.
-/

namespace MicroC

open RiscV (Reg)

inductive Arithmetic where
  | add | subtract | multiply | negate
  deriving DecidableEq

def Arithmetic.name : Arithmetic → String
  | add => "add"
  | subtract => "subtract"
  | multiply => "multiply"
  | negate => "negate"

inductive Breach where
  | overflow (operation : Arithmetic)
  | notPowerOfTwo
  | emptySlot
  | frameOverflow (size : UInt32)
  | notPreservable (reg : Reg)
  | globalScopePopped
  | endOutsideFunction
  | outsideFunction
  deriving DecidableEq

def Breach.message : Breach → String
  | overflow operation => s!"attempt to {operation.name} with overflow"
  | notPowerOfTwo => "assertion failed: align.is_power_of_two()"
  | emptySlot => "stack slot request of zero bytes"
  | frameOverflow size => s!"stack slot of {size} bytes overflows the frame"
  | notPreservable reg => s!"{reg.name} is not a callee-saved register the frame can preserve"
  | globalScopePopped => "attempted to pop the translation-unit scope"
  | endOutsideFunction => "end_function called outside a function"
  | outsideFunction => "function state accessed outside a function"

/-- Why a computation stopped: an error of its own kind, or a broken contract.
-/
inductive Halt (ε : Type) where
  | failure (error : ε)
  | breach (breach : Breach)
  deriving DecidableEq

end MicroC
