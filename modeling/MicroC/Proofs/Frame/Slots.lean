import MicroC.Proofs.Frame.Code

/-!
Slots. A slot that fits below the limit of a frame is always granted, since no sum
that leads to its offset is out of range. It lies between the slots that were there
before and the new end of them, at an offset that suits its size.
-/

namespace MicroC

open RiscV

namespace Frame

variable {f : Frame} {size : UInt32}

theorem isPowerOfTwo_slotAlignment (target : Target) (size : UInt32) :
    isPowerOfTwo (slotAlignment target.registerBytes size) = true := by
  unfold slotAlignment
  cases target <;> (repeat' split) <;> decide

theorem isLeast_two_pow {n k : Nat} (hlow : ∀ j < k, 2 ^ j < n) (hhigh : n ≤ 2 ^ k) :
    IsLeast {p | n ≤ p ∧ ∃ j, p = 2 ^ j} (2 ^ k) := by
  refine ⟨⟨hhigh, k, rfl⟩, ?_⟩
  rintro p ⟨hp, j, rfl⟩
  apply Nat.pow_le_pow_right (by decide)
  by_contra hlt
  exact absurd (hlow j (Nat.lt_of_not_le hlt)) (Nat.not_lt.mpr hp)

/-- A slot of less than a word is aligned to the least power of two that holds it. -/
theorem isLeast_slotAlignment {word : UInt32} (hword : word ≤ 8) (h : size < word) :
    IsLeast {p | size.toNat ≤ p ∧ ∃ j, p = 2 ^ j} (slotAlignment word size).toNat := by
  rw [slotAlignment, if_neg (UInt32.not_le.mpr h)]
  rw [UInt32.lt_iff_toNat_lt] at h
  simp only [UInt32.le_iff_toNat_le, UInt32.reduceToNat] at hword ⊢
  split
  · exact isLeast_two_pow (k := 0) (by omega) ‹_›
  split
  · exact isLeast_two_pow (k := 1) (by intro j hj; interval_cases j; omega) ‹_›
  split
  · exact isLeast_two_pow (k := 2) (by intro j hj; interval_cases j <;> omega) ‹_›
  · exact isLeast_two_pow (k := 3) (by intro j hj; interval_cases j <;> omega) (by omega)

/-- The offset of a slot that is granted is the distance from `s0` to its end. -/
theorem reserve_of_fits (hsize : size ≠ 0) (hfits : f.locals.toNat + size.toNat ≤ maxLocals) :
    ∃ locals, roundUp (f.locals + size) (slotAlignment f.target.registerBytes size) = .ok locals ∧
      f.reserve size = .ok (.ofInt (-(f.word + locals.toNat : Nat)), { f with locals }) := by
  have hend := toNat_locals_add hfits
  have halignment := slotAlignment_le f.target size
  have hword := f.word_le
  rw [maxLocals] at hfits
  let rounded := ((f.locals + size).toNat + (slotAlignment f.target.registerBytes size).toNat - 1) /
    (slotAlignment f.target.registerBytes size).toNat *
    (slotAlignment f.target.registerBytes size).toNat
  have hrounded : rounded ≤ (f.locals + size).toNat +
      (slotAlignment f.target.registerBytes size).toNat - 1 := Nat.div_mul_le_self ..
  have hlocals : (UInt32.ofNat rounded).toNat = rounded :=
    UInt32.toNat_ofNat_of_lt' (show rounded < 2 ^ 32 by omega)
  have hround : roundUp (f.locals + size) (slotAlignment f.target.registerBytes size) =
      .ok (.ofNat rounded) :=
    roundUp_eq_ok_iff.mpr ⟨isPowerOfTwo_slotAlignment f.target size, by omega, hlocals⟩
  have hdepth : Checked.add f.target.registerBytes (.ofNat rounded) =
      .ok (.ofNat (f.word + rounded)) := by
    rw [Checked.add_eq_ok_iff, hlocals]
    exact UInt32.toNat_ofNat_of_lt' (show f.word + rounded < 2 ^ 32 by omega)
  have hoffset := Checked.neg_ofInt (a := (f.word + rounded : Nat)) (by omega) (by omega)
  refine ⟨_, hround, ?_⟩
  rw [Frame.reserve, if_neg hsize, if_pos (show _ ≤ maxLocals from hfits), hlocals]
  simp only [hround, hdepth, toInt32_ofNat, hoffset, Checked.ok_bind]
  rfl

/-- Where a granted slot lies. -/
theorem offset_of_reserve {offset : Int32} {f' : Frame} (h : f.reserve size = .ok (offset, f')) :
    ∃ locals, f' = { f with locals } ∧
      roundUp (f.locals + size) (slotAlignment f.target.registerBytes size) = .ok locals ∧
      f.locals.toNat + size.toNat ≤ maxLocals ∧
      offset.toInt = -(f.word + locals.toNat : Nat) := by
  obtain ⟨locals, rfl, hfits, hround⟩ := reserve_eq_ok h
  have hsize : size ≠ 0 := by
    rintro rfl
    rw [Frame.reserve, if_pos rfl] at h
    cases h
  obtain ⟨locals', hround', hreserve⟩ := reserve_of_fits hsize hfits
  obtain rfl := Except.ok.inj (hround'.symm.trans hround)
  rw [hreserve] at h
  cases h
  refine ⟨_, rfl, hround, hfits, ?_⟩
  have hend := toNat_locals_add hfits
  have halignment := slotAlignment_le f.target size
  have hword := f.word_le
  have hlt := lt_of_roundUp hround
  rw [maxLocals] at hfits
  exact Int32.toInt_ofInt_of_le (by omega) (by omega)

theorem reserve_eq_error_iff {breach : Breach} :
    f.reserve size = .error breach ↔
      size = 0 ∧ breach = .emptySlot ∨
        size ≠ 0 ∧ maxLocals < f.locals.toNat + size.toNat ∧ breach = .frameOverflow size := by
  by_cases hsize : size = 0
  · rw [Frame.reserve, if_pos hsize]
    simp [hsize, eq_comm]
  · by_cases hfits : f.locals.toNat + size.toNat ≤ maxLocals
    · obtain ⟨locals, -, hok⟩ := reserve_of_fits hsize hfits
      simp [hok, hsize, Nat.not_lt.mpr hfits]
    · rw [Frame.reserve, if_neg hsize, if_neg hfits]
      simp [hsize, Nat.lt_of_not_le hfits, eq_comm]

/-- A request is refused if it is empty or does not fit below the limit. -/
theorem reserve_eq_error {breach : Breach} (h : f.reserve size = .error breach) :
    breach = .emptySlot ∨ breach = .frameOverflow size := by
  rcases reserve_eq_error_iff.mp h with ⟨-, hbreach⟩ | ⟨-, -, hbreach⟩
  · exact .inl hbreach
  · exact .inr hbreach

end Frame

end MicroC
