import Mathlib
import MicroC.RiscV.Target

/-!
What the instructions mean. A machine has the integer registers and a memory of
bytes. Addresses and sums wrap around, and a number is stored with its lowest
byte first.
-/

namespace MicroC.RiscV

variable {target : Target} {w : Nat}

/-- Bits in a register. -/
def Target.xlen : Target → Nat
  | rv32 => 32
  | rv64 => 64

def Width.bytes : Width → Nat
  | word => 4
  | double => 8

/-- The `size` bytes from `start` on, past the highest address if need be. -/
def Covers (start : BitVec w) (size : Nat) (address : BitVec w) : Prop :=
  (address - start).toNat < size

structure Machine (target : Target) where
  regs : Reg → BitVec target.xlen
  mem : BitVec target.xlen → BitVec 8
  zero_eq : regs .zero = 0

namespace Machine

/-- What is written to the register `zero` is lost. -/
def set (m : Machine target) (rd : Reg) (value : BitVec target.xlen) : Machine target where
  regs r := if r = rd ∧ rd ≠ .zero then value else m.regs r
  mem := m.mem
  zero_eq := by
    rw [if_neg fun h => h.2 h.1.symm]
    exact m.zero_eq

theorem eight_add_mul (n : Nat) : 8 + 8 * n = 8 * (n + 1) := by
  omega

/-- The number that `n` bytes from `a` on stand for. -/
def bytes (m : Machine target) (a : BitVec target.xlen) : (n : Nat) → BitVec (8 * n)
  | 0 => 0
  | n + 1 => (m.mem (a + .ofNat _ n) ++ m.bytes a n).cast (eight_add_mul n)

/-- A number in memory, extended to a register by its sign. -/
def read (m : Machine target) (width : Width) (a : BitVec target.xlen) : BitVec target.xlen :=
  (m.bytes a width.bytes).signExtend target.xlen

def write (m : Machine target) (width : Width) (a value : BitVec target.xlen) : Machine target :=
  { m with
    mem := fun b =>
      if (b - a).toNat < width.bytes then value.extractLsb' (8 * (b - a).toNat) 8 else m.mem b }

end Machine

/-- Whether a target has accesses of a width. -/
def Width.available (target : Target) : Width → Bool
  | word => true
  | double => target = .rv64

/-- Whether a register can be loaded with a value, given with or without sign. -/
def fitsRegister (target : Target) (value : Int) : Bool :=
  -2 ^ (target.xlen - 1) ≤ value && value < 2 ^ target.xlen

/-- One instruction, unless it has no encoding or is a jump. -/
def Instr.step : Instr → Machine target → Option (Machine target)
  | code, m | global _, m | label _, m => some m
  | add rd left right, m => some (m.set rd (m.regs left + m.regs right))
  | sub rd left right, m => some (m.set rd (m.regs left - m.regs right))
  | addi rd rs immediate, m =>
      if fitsImmediate immediate.toInt then
        some (m.set rd (m.regs rs + .ofInt _ immediate.toInt))
      else none
  | load width rd offset base, m =>
      if width.available target && fitsImmediate offset.toInt then
        some (m.set rd (m.read width (m.regs base + .ofInt _ offset.toInt)))
      else none
  | store width rs offset base, m =>
      if width.available target && fitsImmediate offset.toInt then
        some (m.write width (m.regs base + .ofInt _ offset.toInt) (m.regs rs))
      else none
  | li rd immediate, m =>
      if fitsRegister target immediate.toInt then some (m.set rd (.ofInt _ immediate.toInt))
      else none
  | mv rd rs, m => some (m.set rd (m.regs rs))
  | ret, _ => none

namespace Machine

/-- Runs straight-line code to its end. -/
def run : List Instr → Machine target → Option (Machine target)
  | [], m => some m
  | i :: code, m => (i.step m).bind (run code)

/-- Runs code up to its first return, and gives the address returned to. -/
def runToReturn : List Instr → Machine target → Option (BitVec target.xlen × Machine target)
  | [], _ => none
  | i :: code, m =>
      if i = .ret then some (m.regs .ra, m) else (i.step m).bind (runToReturn code)

end Machine

/-! ### Memory -/

/-- A range of bytes by its distance from `start`, which may be a lower address:
ranges that do not overlap there do not overlap at all. -/
theorem covers_add {start : BitVec w} {offset size : Nat} {address : BitVec w}
    (hoffset : offset < 2 ^ w) (hend : offset + size ≤ 2 ^ w) :
    Covers (start + .ofNat w offset) size address ↔
      offset ≤ (address - start).toNat ∧ (address - start).toNat < offset + size := by
  have hdistance : address - (start + .ofNat w offset) = address - start - .ofNat w offset := by
    grind
  have hoffset' : (BitVec.ofNat w offset).toNat = offset := Nat.mod_eq_of_lt hoffset
  have hlt := (address - start).isLt
  rw [Covers, hdistance]
  by_cases hle : offset ≤ (address - start).toNat
  · have hbelow : BitVec.ofNat w offset ≤ address - start := by
      rw [BitVec.le_def, hoffset']
      exact hle
    rw [BitVec.toNat_sub_of_le hbelow, hoffset']
    omega
  · have habove : address - start < BitVec.ofNat w offset := by
      rw [BitVec.lt_def, hoffset']
      omega
    rw [BitVec.toNat_sub_of_lt habove, hoffset']
    omega

theorem covers_offset (start : BitVec w) {offset size : Nat} (h : offset < size) :
    Covers start size (start + .ofNat w offset) := by
  have hdistance : start + .ofNat w offset - start = .ofNat w offset := by grind
  rw [Covers, hdistance, BitVec.toNat_ofNat]
  exact Nat.lt_of_le_of_lt (Nat.mod_le _ _) h

theorem add_ofInt_neg (a : BitVec w) (n : Nat) : a + .ofInt w (-n) = a - .ofNat w n := by
  rw [BitVec.ofInt_neg, BitVec.ofInt_natCast, BitVec.sub_eq_add_neg]

theorem sub_add_ofInt_sub (a : BitVec w) (n k : Nat) :
    a - .ofNat w n + .ofInt w (n - k) = a - .ofNat w k := by
  rw [Int.sub_eq_add_neg, BitVec.ofInt_add, BitVec.ofInt_neg, BitVec.ofInt_natCast,
    BitVec.ofInt_natCast]
  grind

theorem two_pow_le_two_pow_xlen (target : Target) : 2 ^ 32 ≤ 2 ^ target.xlen := by
  cases target <;> decide

theorem bytes_registerWidth (target : Target) :
    target.registerWidth.bytes = target.registerBytes.toNat := by
  cases target <;> rfl

theorem available_registerWidth (target : Target) :
    target.registerWidth.available target = true := by
  cases target <;> rfl

namespace Machine

variable {m m' : Machine target} {width : Width} {a value : BitVec target.xlen}

theorem bytes_congr {n : Nat} (h : ∀ b, Covers a n b → m'.mem b = m.mem b) :
    m'.bytes a n = m.bytes a n := by
  induction n with
  | zero => rfl
  | succ n ih =>
      rw [bytes, bytes, h _ (covers_offset a n.lt_succ_self),
        ih fun b hb => h b (Nat.lt_succ_of_lt hb)]

theorem read_congr (h : ∀ b, Covers a width.bytes b → m'.mem b = m.mem b) :
    m'.read width a = m.read width a := by
  rw [read, read, bytes_congr h]

theorem mem_write_of_not_covers {b : BitVec target.xlen} (h : ¬Covers a width.bytes b) :
    (m.write width a value).mem b = m.mem b := if_neg h

theorem mem_write_congr (h : m'.mem = m.mem) (width : Width) (a value : BitVec target.xlen) :
    (m'.write width a value).mem = (m.write width a value).mem := by
  simp only [write, h]

theorem bytes_write {n : Nat} (hn : n ≤ width.bytes) (hsize : width.bytes ≤ 2 ^ target.xlen) :
    (m.write width a value).bytes a n = value.extractLsb' 0 (8 * n) := by
  induction n with
  | zero => exact BitVec.eq_of_zero_length rfl
  | succ n ih =>
      have hdistance : a + .ofNat _ n - a = .ofNat _ n := by grind
      have hbyte : (m.write width a value).mem (a + .ofNat _ n) = value.extractLsb' (8 * n) 8 := by
        simp only [write]
        rw [hdistance, BitVec.toNat_ofNat, Nat.mod_eq_of_lt (by omega),
          if_pos (Nat.lt_of_succ_le hn)]
      rw [bytes, ih (Nat.le_of_succ_le hn), hbyte,
        BitVec.extractLsb'_append_extractLsb'_eq_extractLsb' (Nat.zero_add _).symm]
      apply BitVec.eq_of_toNat_eq
      rw [BitVec.toNat_cast, BitVec.extractLsb'_toNat, BitVec.extractLsb'_toNat, eight_add_mul]

/-- A register that was stored is read back whole. -/
theorem read_write (m : Machine target) (a value : BitVec target.xlen) :
    (m.write target.registerWidth a value).read target.registerWidth a = value := by
  cases target with
  | rv32 =>
      rw [read, bytes_write Nat.le.refl (by decide)]
      exact (BitVec.signExtend_eq _).trans BitVec.extractLsb'_eq_self
  | rv64 =>
      rw [read, bytes_write Nat.le.refl (by decide)]
      exact (BitVec.signExtend_eq _).trans BitVec.extractLsb'_eq_self

@[simp] theorem read_set (m : Machine target) (rd : Reg) (value a : BitVec target.xlen)
    (width : Width) : (m.set rd value).read width a = m.read width a :=
  read_congr fun _ _ => rfl

/-! ### Code -/

@[simp] theorem regs_set {rd : Reg} (h : rd ≠ .zero) (m : Machine target)
    (value : BitVec target.xlen) (r : Reg) :
    (m.set rd value).regs r = if r = rd then value else m.regs r := by
  simp [set, h]

@[simp] theorem mem_set (m : Machine target) (rd : Reg) (value : BitVec target.xlen) :
    (m.set rd value).mem = m.mem := rfl

@[simp] theorem regs_write (m : Machine target) (width : Width) (a value : BitVec target.xlen) :
    (m.write width a value).regs = m.regs := rfl

theorem run_append (code code' : List Instr) (m : Machine target) :
    run (code ++ code') m = (run code m).bind (run code') := by
  induction code generalizing m with
  | nil => rfl
  | cons i code ih =>
      rw [List.cons_append, run, run]
      cases i.step m with
      | none => rfl
      | some m' => exact ih m'

/-- Code that runs to its end has no return in it. -/
theorem runToReturn_append {code : List Instr} (h : run code m = some m') (code' : List Instr) :
    runToReturn (code ++ code') m = runToReturn code' m' := by
  induction code generalizing m with
  | nil =>
      cases h
      rfl
  | cons i code ih =>
      obtain ⟨m₁, hstep, hrun⟩ := Option.bind_eq_some_iff.mp h
      have hret : i ≠ .ret := by
        rintro rfl
        cases hstep
      rw [List.cons_append, runToReturn, if_neg hret, hstep]
      exact ih hrun

end Machine

theorem fitsImmediate_iff {value : Int} :
    fitsImmediate value = true ↔ -2048 ≤ value ∧ value ≤ 2047 := by
  rw [fitsImmediate, Bool.and_eq_true, decide_eq_true_eq, decide_eq_true_eq]

theorem fitsImmediate_natCast {n : Nat} : fitsImmediate n = true ↔ n ≤ 2047 := by
  rw [fitsImmediate_iff]
  omega

namespace Instr

variable {value : Int}

theorem toInt_ofInt_of_fitsImmediate (h : fitsImmediate value = true) :
    (Int32.ofInt value).toInt = value := by
  rw [fitsImmediate_iff] at h
  exact Int32.toInt_ofInt_of_le (by omega) (by omega)

theorem step_addi (rd rs : Reg) (h : fitsImmediate value = true) (m : Machine target) :
    (addi rd rs (.ofInt value)).step m = some (m.set rd (m.regs rs + .ofInt _ value)) := by
  rw [step, toInt_ofInt_of_fitsImmediate h, if_pos h]

theorem step_load (rd base : Reg) (h : fitsImmediate value = true) (m : Machine target) :
    (load target.registerWidth rd (.ofInt value) base).step m =
      some (m.set rd (m.read target.registerWidth (m.regs base + .ofInt _ value))) := by
  rw [step, toInt_ofInt_of_fitsImmediate h, available_registerWidth, h]
  rfl

theorem step_store (rs base : Reg) (h : fitsImmediate value = true) (m : Machine target) :
    (store target.registerWidth rs (.ofInt value) base).step m =
      some (m.write target.registerWidth (m.regs base + .ofInt _ value) (m.regs rs)) := by
  rw [step, toInt_ofInt_of_fitsImmediate h, available_registerWidth, h]
  rfl

theorem step_li (rd : Reg) {constant : Int64} (hmin : -2 ^ 31 ≤ constant.toInt)
    (hmax : constant.toInt < 2 ^ 31) (m : Machine target) :
    (li rd constant).step m = some (m.set rd (.ofInt _ constant.toInt)) := by
  have hfits : fitsRegister target constant.toInt = true := by
    rw [fitsRegister, Bool.and_eq_true, decide_eq_true_eq, decide_eq_true_eq]
    cases target <;> simp only [Target.xlen] <;> omega
  rw [step, if_pos hfits]

end Instr

end MicroC.RiscV
