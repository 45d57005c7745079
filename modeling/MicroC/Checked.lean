import MicroC.Breach

/-!
32-bit arithmetic that refuses to wrap around.
-/

namespace MicroC.Checked

def add (a b : UInt32) : Except Breach UInt32 :=
  if a.toNat + b.toNat < UInt32.size then .ok (a + b) else .error (.overflow .add)

def mul (a b : UInt32) : Except Breach UInt32 :=
  if a.toNat * b.toNat < UInt32.size then .ok (a * b) else .error (.overflow .multiply)

/-- The result `value` of an operation, where 32 signed bits hold it. -/
def signed (operation : Arithmetic) (value : Int) : Except Breach Int32 :=
  if Int32.minValue.toInt ≤ value ∧ value ≤ Int32.maxValue.toInt then .ok (.ofInt value)
  else .error (.overflow operation)

def neg (a : Int32) : Except Breach Int32 := signed .negate (-a.toInt)

def sub (a b : Int32) : Except Breach Int32 := signed .subtract (a.toInt - b.toInt)

def smul (a b : Int32) : Except Breach Int32 := signed .multiply (a.toInt * b.toInt)

theorem add_eq_ok_iff {a b c : UInt32} : add a b = .ok c ↔ c.toNat = a.toNat + b.toNat := by
  unfold add
  split
  · rename_i h
    simp only [Except.ok.injEq]
    constructor
    · rintro rfl
      rw [UInt32.toNat_add]
      exact Nat.mod_eq_of_lt h
    · intro hc
      apply UInt32.toNat.inj
      rw [UInt32.toNat_add, hc]
      exact Nat.mod_eq_of_lt h
  · rename_i h
    simp only [reduceCtorEq, false_iff]
    intro hc
    exact h (hc ▸ c.toNat_lt_size)

end MicroC.Checked
