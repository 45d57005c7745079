import MicroC.Checked
import MicroC.RiscV.Target

/-!
Stack frames. The stack grows downward and `s0` holds the caller's `sp`. With
`W` the bytes of a register and `N` the bytes of the frame:

    s0 - W            the caller's s0
    s0 - W - locals   slots, each below the one before it
    ...               padding up to a multiple of sixteen
    sp + W * i        preserved registers, in the order in which they were first used
    sp = s0 - N

Slots are addressed from `s0` and preserved registers from `sp`, so neither
moves when the other area grows.
-/

namespace MicroC

open RiscV

def isPowerOfTwo (n : UInt32) : Bool := n != 0 && n &&& (n - 1) == 0

/-- The least multiple of `alignment` that is not below `value`. -/
def roundUp (value alignment : UInt32) : Except Breach UInt32 :=
  if isPowerOfTwo alignment then
    (Checked.add value alignment).map fun sum => (sum - 1) &&& ~~~(alignment - 1)
  else .error .notPowerOfTwo

structure Frame where
  target : Target
  /-- Bytes of the slots, padding between them included. -/
  locals : UInt32
  /-- The preserved registers, in the order in which they were first used. -/
  saved : List Reg
  deriving DecidableEq

namespace Frame

def empty (target : Target) : Frame := ⟨target, 0, []⟩

/-- Above this the size of a frame with all its preserved registers might not
fit 31 bits. -/
def maxLocals : Nat := 0x7fffffff - 256

def stackAlignment : UInt32 := 16

/-- A slot of a word or more is aligned to a word, a smaller one to the least
power of two that holds it. -/
def slotAlignment (word size : UInt32) : UInt32 :=
  if word ≤ size then word
  else if size ≤ 1 then 1
  else if size ≤ 2 then 2
  else if size ≤ 4 then 4
  else 8

/-- Adds a slot of `size` bytes and gives its offset from `s0`. -/
def reserve (f : Frame) (size : UInt32) : Except Breach (Int32 × Frame) :=
  if size = 0 then .error .emptySlot
  else if f.locals.toNat + size.toNat ≤ maxLocals then do
    let word := f.target.registerBytes
    let locals ← roundUp (f.locals + size) (slotAlignment word size)
    let depth ← Checked.add word locals
    let offset ← Checked.neg depth.toInt32
    return (offset, { f with locals })
  else .error (.frameOverflow size)

/-- Has the frame preserve a register. -/
def preserve (f : Frame) (reg : Reg) : Except Breach Frame :=
  if reg ∈ Reg.preserved then
    .ok (if reg ∈ f.saved then f else { f with saved := f.saved ++ [reg] })
  else .error (.notPreservable reg)

/-- Bytes of the whole frame. -/
def total (f : Frame) : Except Breach UInt32 := do
  let word := f.target.registerBytes
  let slots ← Checked.add word f.locals
  let registers ← Checked.mul word (.ofNat f.saved.length)
  roundUp (← Checked.add slots registers) stackAlignment

end Frame

end MicroC
