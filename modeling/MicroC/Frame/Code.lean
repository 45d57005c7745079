import MicroC.Frame.Basic

/-!
The code that enters and leaves a function with a given frame. A frame whose
size is no immediate is addressed through `t0`.
-/

namespace MicroC.Frame

open RiscV

/-- The preserved registers with their offsets from `sp`. -/
def savedAt (f : Frame) : Except Breach (List (Reg × Int32)) :=
  f.saved.zipIdx.mapM fun (reg, i) => do
    return (reg, ← Checked.smul (.ofNat i) f.target.registerBytes.toInt32)

def saves (f : Frame) : Except Breach (List Instr) := do
  return (← f.savedAt).map fun (reg, offset) => .store f.target.registerWidth reg offset .sp

/-- Registers are restored in the order opposite to their saving. -/
def restores (f : Frame) : Except Breach (List Instr) := do
  return (← f.savedAt).reverse.map fun (reg, offset) =>
    .load f.target.registerWidth reg offset .sp

/-- Makes room, saves what must be preserved, and has `s0` point at the
caller's `sp`. -/
def prologue (f : Frame) : Except Breach (List Instr) := do
  let total ← f.total
  let size := total.toInt32
  let word := f.target.registerBytes.toInt32
  let width := f.target.registerWidth
  let saves ← f.saves
  if fitsImmediate total.toNat then
    let down ← Checked.neg size
    let link ← Checked.sub size word
    return [.addi .sp .sp down, .store width .s0 link .sp] ++ saves ++ [.addi .s0 .sp size]
  else
    let link ← Checked.neg word
    return [.li .t0 size.toInt64, .sub .sp .sp .t0, .add .t0 .sp .t0, .store width .s0 link .t0]
      ++ saves ++ [.mv .s0 .t0]

/-- Restores what was preserved, gives the room back, and returns. -/
def epilogue (f : Frame) : Except Breach (List Instr) := do
  let total ← f.total
  let size := total.toInt32
  let word := f.target.registerBytes.toInt32
  let width := f.target.registerWidth
  let restores ← f.restores
  if fitsImmediate total.toNat then
    let link ← Checked.sub size word
    return restores ++ [.load width .s0 link .sp, .addi .sp .sp size, .ret]
  else
    let link ← Checked.neg word
    return restores ++ [.mv .t0 .s0, .load width .s0 link .t0, .mv .sp .t0, .ret]

end MicroC.Frame
