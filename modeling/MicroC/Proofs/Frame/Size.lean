import Mathlib
import MicroC.Frame.Code

/-!
Rounding is exact, and the frames that can be reached are small enough for
every sum that their code is made from.
-/

namespace MicroC

open RiscV

theorem isPowerOfTwo_iff {n : UInt32} : isPowerOfTwo n = true ↔ ∃ k, n.toNat = 2 ^ k := by
  by_cases hn : n = 0
  · subst hn
    simp [isPowerOfTwo, eq_comm (a := 0)]
  · have hpos : n.toNat ≠ 0 := fun h => hn (UInt32.toNat.inj h)
    have hpred : (n - 1).toNat = n.toNat - 1 := by
      rw [UInt32.toNat_sub_of_le]
      · rfl
      · rw [UInt32.le_iff_toNat_le, UInt32.toNat_one]
        exact Nat.pos_of_ne_zero hpos
    rw [isPowerOfTwo, ← Nat.isPowerOfTwo, ← Nat.and_sub_one_eq_zero_iff_isPowerOfTwo hpos, ← hpred,
      ← UInt32.toNat_and]
    simp [hn, ← UInt32.toNat_inj]

theorem pos_of_isPowerOfTwo {n : UInt32} (h : isPowerOfTwo n) : 0 < n.toNat := by
  obtain ⟨k, hk⟩ := isPowerOfTwo_iff.mp h
  exact hk ▸ Nat.two_pow_pos k

/-- Clearing the low bits rounds down. -/
theorem toNat_and_not_sub_one (value : UInt32) {alignment : UInt32} {k : Nat}
    (h : alignment.toNat = 2 ^ k) :
    (value &&& ~~~(alignment - 1)).toNat = value.toNat / 2 ^ k * 2 ^ k := by
  have hone : (1 : UInt32) ≤ alignment := by
    rw [UInt32.le_iff_toNat_le, h]
    exact Nat.one_le_two_pow
  have hmask : (~~~(alignment - 1)).toNat = 2 ^ 32 - (2 ^ k - 1 + 1) := by
    rw [UInt32.toNat_not, UInt32.toNat_sub_of_le _ _ hone, h, UInt32.toNat_one, UInt32.size]
    omega
  have hlt : 2 ^ k - 1 < 2 ^ 32 := by
    have := h ▸ alignment.toNat_lt
    omega
  apply Nat.eq_of_testBit_eq
  intro i
  rw [UInt32.toNat_and, hmask, Nat.testBit_and, Nat.testBit_two_pow_sub_succ hlt,
    Nat.testBit_two_pow_sub_one, Nat.testBit_mul_two_pow, Nat.testBit_div_two_pow]
  -- Bits from 32 on are in neither number, although the quotient is not a word.
  by_cases hi : k ≤ i
  · have hvalue : i < 32 ∨ value.toNat.testBit i = false := by
      by_cases h32 : i < 32
      · exact .inl h32
      · exact .inr (Nat.testBit_lt_two_pow (Nat.lt_of_lt_of_le value.toNat_lt
          (Nat.pow_le_pow_right (by decide) (Nat.le_of_not_lt h32))))
    rcases hvalue with h32 | hzero
    · simp [hi, h32, Nat.sub_add_cancel hi, Nat.not_lt.mpr hi]
    · simp [hi, hzero, Nat.sub_add_cancel hi]
  · simp [hi, Nat.lt_of_not_le hi]

/-- Rounding up, where it does not overflow. -/
theorem roundUp_eq_ok_iff {value alignment result : UInt32} :
    roundUp value alignment = .ok result ↔
      isPowerOfTwo alignment ∧ value.toNat + alignment.toNat < 2 ^ 32 ∧
        result.toNat =
          (value.toNat + alignment.toNat - 1) / alignment.toNat * alignment.toNat := by
  rw [roundUp]
  split
  · rename_i hpower
    obtain ⟨k, hk⟩ := isPowerOfTwo_iff.mp hpower
    have hpos := pos_of_isPowerOfTwo hpower
    by_cases hsum : value.toNat + alignment.toNat < 2 ^ 32
    · have hadd : (value + alignment).toNat = value.toNat + alignment.toNat := by
        rw [UInt32.toNat_add]
        exact Nat.mod_eq_of_lt hsum
      have hpred : (value + alignment - 1).toNat = value.toNat + alignment.toNat - 1 := by
        rw [UInt32.toNat_sub_of_le, hadd, UInt32.toNat_one]
        rw [UInt32.le_iff_toNat_le, hadd, UInt32.toNat_one]
        omega
      have hround := toNat_and_not_sub_one (value + alignment - 1) hk
      rw [hpred, ← hk] at hround
      rw [Checked.add, if_pos (show _ < UInt32.size from hsum)]
      simp only [Except.map, Except.ok.injEq, hpower, hsum, true_and, ← hround, UInt32.toNat_inj]
      exact eq_comm
    · rw [Checked.add, if_neg (show ¬_ < UInt32.size from hsum)]
      simp only [Except.map, hsum, reduceCtorEq, false_and, and_false]
  · rename_i hpower
    simp [hpower]

/-- What rounding up gives is the least multiple that is not below the value. -/
theorem isLeast_roundUp {value alignment result : UInt32}
    (h : roundUp value alignment = .ok result) :
    IsLeast {n | alignment.toNat ∣ n ∧ value.toNat ≤ n} result.toNat := by
  obtain ⟨hpower, -, hresult⟩ := roundUp_eq_ok_iff.mp h
  have hpos := pos_of_isPowerOfTwo hpower
  have hdivide := Nat.div_add_mod' (value.toNat + alignment.toNat - 1) alignment.toNat
  have hmod := Nat.mod_lt (value.toNat + alignment.toNat - 1) hpos
  rw [hresult]
  refine ⟨⟨Nat.dvd_mul_left _ _, by omega⟩, ?_⟩
  rintro n ⟨⟨q, rfl⟩, hle⟩
  rw [Nat.mul_comm]
  apply Nat.mul_le_mul_left
  apply Nat.le_of_lt_succ
  rw [Nat.div_lt_iff_lt_mul hpos, Nat.succ_mul, Nat.mul_comm q]
  omega

theorem lt_of_roundUp {value alignment result : UInt32}
    (h : roundUp value alignment = .ok result) :
    result.toNat < value.toNat + alignment.toNat := by
  obtain ⟨hpower, -, hresult⟩ := roundUp_eq_ok_iff.mp h
  have hpos := pos_of_isPowerOfTwo hpower
  have hdown := Nat.div_mul_le_self (value.toNat + alignment.toNat - 1) alignment.toNat
  omega

theorem exists_roundUp_iff {value alignment : UInt32} :
    (∃ result, roundUp value alignment = .ok result) ↔
      isPowerOfTwo alignment ∧ value.toNat + alignment.toNat < 2 ^ 32 := by
  constructor
  · rintro ⟨result, h⟩
    obtain ⟨hpower, hsum, -⟩ := roundUp_eq_ok_iff.mp h
    exact ⟨hpower, hsum⟩
  · rintro ⟨hpower, hsum⟩
    have hdown := Nat.div_mul_le_self (value.toNat + alignment.toNat - 1) alignment.toNat
    refine ⟨.ofNat _, roundUp_eq_ok_iff.mpr ⟨hpower, hsum, UInt32.toNat_ofNat_of_lt' ?_⟩⟩
    exact lt_of_le_of_lt hdown (show _ < 2 ^ 32 by omega)

/-- The sum with the alignment is made first, and it can be too large although the multiple is
not. -/
theorem exists_breach_roundUp_iff {value alignment : UInt32} :
    (∃ breach, roundUp value alignment = .error breach) ↔
      (¬∃ k, alignment.toNat = 2 ^ k) ∨ 2 ^ 32 ≤ value.toNat + alignment.toNat := by
  rw [← not_lt, ← not_and_or, ← isPowerOfTwo_iff, ← exists_roundUp_iff]
  cases roundUp value alignment <;> simp

theorem roundUp_mono {value value' alignment result result' : UInt32}
    (h : roundUp value alignment = .ok result) (h' : roundUp value' alignment = .ok result')
    (hle : value ≤ value') : result ≤ result' := by
  obtain ⟨⟨hdvd, hge⟩, -⟩ := isLeast_roundUp h'
  exact (isLeast_roundUp h).2 ⟨hdvd, Nat.le_trans hle hge⟩

/-- A multiple is kept, the last one apart. -/
theorem roundUp_idem {value alignment result : UInt32} (h : roundUp value alignment = .ok result)
    (hsum : result.toNat + alignment.toNat < 2 ^ 32) : roundUp result alignment = .ok result := by
  obtain ⟨hpower, -, -⟩ := roundUp_eq_ok_iff.mp h
  obtain ⟨again, hagain⟩ := exists_roundUp_iff.mpr ⟨hpower, hsum⟩
  have hself : IsLeast {n | alignment.toNat ∣ n ∧ result.toNat ≤ n} result.toNat :=
    ⟨⟨(isLeast_roundUp h).1.1, Nat.le_refl _⟩, fun _ hn => hn.2⟩
  rw [hagain, UInt32.toNat.inj ((isLeast_roundUp hagain).unique hself)]

/-- Rounding up stops exactly where the alignment is no power of two or where the sum with it is
no word. Otherwise it gives the least multiple that is not below the value, it keeps the order, and
rounding again changes nothing. -/
theorem roundUp_exact (value alignment : UInt32) :
    ((∃ breach, roundUp value alignment = .error breach) ↔
      (¬∃ k, alignment.toNat = 2 ^ k) ∨ 2 ^ 32 ≤ value.toNat + alignment.toNat) ∧
    ∀ result, roundUp value alignment = .ok result →
      IsLeast {n | alignment.toNat ∣ n ∧ value.toNat ≤ n} result.toNat ∧
      result.toNat < value.toNat + alignment.toNat ∧
      (∀ value' result', value ≤ value' → roundUp value' alignment = .ok result' →
        result ≤ result') ∧
      (result.toNat + alignment.toNat < 2 ^ 32 → roundUp result alignment = .ok result) := by
  refine ⟨exists_breach_roundUp_iff, fun result h => ?_⟩
  exact ⟨isLeast_roundUp h, lt_of_roundUp h, fun _ _ hle h' => roundUp_mono h h' hle,
    roundUp_idem h⟩

/-- The last multiple of sixteen is reached from the number below it, and stops rounding itself. -/
theorem roundUp_exact_last :
    roundUp 0xffffffef 16 = .ok 0xfffffff0 ∧
      IsLeast {n | 16 ∣ n ∧ 0xffffffef ≤ n} 0xfffffff0 ∧
      (∃ breach, roundUp 0xfffffff0 16 = .error breach) ∧
      roundUp 17 16 = .ok 32 ∧ roundUp 32 16 = .ok 32 := by
  have hlast : roundUp 0xffffffef 16 = .ok 0xfffffff0 := by decide
  have hsmall : roundUp 17 16 = .ok 32 := by decide
  refine ⟨hlast, ((roundUp_exact _ _).2 _ hlast).1, ?_, hsmall, ?_⟩
  · exact (roundUp_exact _ _).1.mpr (.inr (by decide))
  · exact ((roundUp_exact _ _).2 _ hsmall).2.2.2 (by decide)

namespace Checked

variable {α β : Type}

theorem bind_eq_ok_iff {x : Except Breach α} {f : α → Except Breach β} {b : β} :
    x >>= f = .ok b ↔ ∃ a, x = .ok a ∧ f a = .ok b := by
  cases x with
  | error breach => simp [bind, Except.bind]
  | ok a => simp [bind, Except.bind]

theorem ok_bind (a : α) (f : α → Except Breach β) : Except.ok a >>= f = f a := rfl

theorem mul_eq_ok {a b c : UInt32} (h : c.toNat = a.toNat * b.toNat) : mul a b = .ok c := by
  have hfits : a.toNat * b.toNat < UInt32.size := h ▸ c.toNat_lt_size
  rw [mul, if_pos hfits, Except.ok.injEq]
  apply UInt32.toNat.inj
  rw [UInt32.toNat_mul, h]
  exact Nat.mod_eq_of_lt hfits

theorem signed_eq_ok {operation : Arithmetic} {value : Int} (hmin : -2 ^ 31 ≤ value)
    (hmax : value < 2 ^ 31) : signed operation value = .ok (.ofInt value) :=
  if_pos ⟨hmin, Int.le_of_lt_add_one hmax⟩

end Checked

namespace Frame

/-- The frames that a sequence of granted requests leads to. -/
inductive Reached : Frame → Prop
  | empty (target : Target) : Reached (.empty target)
  | reserve {f f' : Frame} {size : UInt32} {offset : Int32} (hf : f.Reached)
      (h : f.reserve size = .ok (offset, f')) : Reached f'
  | preserve {f f' : Frame} {reg : Reg} (hf : f.Reached) (h : f.preserve reg = .ok f') : Reached f'

/-- What every reached frame satisfies. The last slot may end up to seven bytes
above the limit, where its alignment puts it. -/
structure Sound (f : Frame) : Prop where
  locals : f.locals.toNat ≤ maxLocals + 7
  saved : ∀ reg ∈ f.saved, reg ∈ Reg.preserved
  nodup : f.saved.Nodup

variable {f f' : Frame}

theorem slotAlignment_le (target : Target) (size : UInt32) :
    (slotAlignment target.registerBytes size).toNat ≤ 8 := by
  unfold slotAlignment
  cases target <;> (repeat' split) <;> decide

/-- The end of a slot that fits below the limit. -/
theorem toNat_locals_add {size : UInt32} (h : f.locals.toNat + size.toNat ≤ maxLocals) :
    (f.locals + size).toNat = f.locals.toNat + size.toNat := by
  rw [UInt32.toNat_add]
  apply Nat.mod_eq_of_lt
  rw [maxLocals] at h
  omega

theorem reserve_eq_ok {size : UInt32} {offset : Int32} (h : f.reserve size = .ok (offset, f')) :
    ∃ locals, f' = { f with locals } ∧ f.locals.toNat + size.toNat ≤ maxLocals ∧
      roundUp (f.locals + size) (slotAlignment f.target.registerBytes size) = .ok locals := by
  rw [Frame.reserve] at h
  split at h
  · cases h
  split at h
  · rename_i hfits
    obtain ⟨locals, hround, h⟩ := Checked.bind_eq_ok_iff.mp h
    obtain ⟨depth, -, h⟩ := Checked.bind_eq_ok_iff.mp h
    obtain ⟨offset', -, h⟩ := Checked.bind_eq_ok_iff.mp h
    cases h
    exact ⟨locals, rfl, hfits, hround⟩
  · cases h

theorem Sound.reserve {size : UInt32} {offset : Int32} (hf : f.Sound)
    (h : f.reserve size = .ok (offset, f')) : f'.Sound := by
  obtain ⟨locals, rfl, hfits, hround⟩ := reserve_eq_ok h
  refine ⟨?_, hf.saved, hf.nodup⟩
  have hend := toNat_locals_add hfits
  have halignment := slotAlignment_le f.target size
  have hlt := lt_of_roundUp hround
  show locals.toNat ≤ maxLocals + 7
  omega

theorem Sound.preserve {reg : Reg} (hf : f.Sound) (h : f.preserve reg = .ok f') : f'.Sound := by
  rw [Frame.preserve] at h
  split at h
  · rename_i hreg
    split at h
    · cases h
      exact hf
    · rename_i hnew
      cases h
      refine ⟨hf.locals, ?_, ?_⟩
      · intro r hr
        rcases List.mem_append.mp hr with hr | hr
        · exact hf.saved r hr
        · rwa [List.mem_singleton.mp hr]
      · exact List.nodup_append.mpr ⟨hf.nodup, List.nodup_cons.mpr ⟨nofun, List.nodup_nil⟩, by
          rintro r hr r' hr' rfl
          exact hnew (List.mem_singleton.mp hr' ▸ hr)⟩
  · cases h

theorem Reached.sound (h : f.Reached) : f.Sound := by
  induction h with
  | empty target => exact ⟨Nat.zero_le _, nofun, List.nodup_nil⟩
  | reserve _ h ih => exact ih.reserve h
  | preserve _ h ih => exact ih.preserve h

theorem Sound.length_saved (h : f.Sound) : f.saved.length ≤ 11 :=
  (List.subperm_of_subset h.nodup h.saved).length_le

/-- Bytes of a register. -/
def word (f : Frame) : Nat := f.target.registerBytes.toNat

theorem word_cases (f : Frame) : f.word = 4 ∨ f.word = 8 := by
  rw [word]
  cases f.target
  · exact .inl rfl
  · exact .inr rfl

theorem word_le (f : Frame) : f.word ≤ 8 := by
  have hword := f.word_cases
  omega

/-- Bytes of the whole frame, as a number. -/
def size (f : Frame) : Nat := (f.word + f.locals.toNat + f.word * f.saved.length + 15) / 16 * 16

theorem le_size (f : Frame) : f.word + f.locals.toNat + f.word * f.saved.length ≤ f.size := by
  rw [size]
  omega

theorem isLeast_size (f : Frame) :
    IsLeast {n | 16 ∣ n ∧ f.word + f.locals.toNat + f.word * f.saved.length ≤ n} f.size := by
  refine ⟨⟨Nat.dvd_mul_left _ _, f.le_size⟩, ?_⟩
  rintro n ⟨⟨q, rfl⟩, hle⟩
  rw [size]
  omega

theorem Sound.size_lt (h : f.Sound) : f.size < 2 ^ 31 := by
  have hlocals := h.locals
  have hsaved := h.length_saved
  rw [maxLocals] at hlocals
  rw [size]
  rcases f.word_cases with hword | hword <;> rw [hword] <;> omega

theorem Sound.total (h : f.Sound) : f.total = .ok (.ofNat f.size) := by
  have hlt := h.size_lt
  have hle := f.le_size
  have hlength := h.length_saved
  have hcount : (UInt32.ofNat f.saved.length).toNat = f.saved.length :=
    UInt32.toNat_ofNat_of_lt' (show f.saved.length < 2 ^ 32 by omega)
  have hslots : (UInt32.ofNat (f.word + f.locals.toNat)).toNat = f.word + f.locals.toNat :=
    UInt32.toNat_ofNat_of_lt' (show f.word + f.locals.toNat < 2 ^ 32 by omega)
  have hregisters : (UInt32.ofNat (f.word * f.saved.length)).toNat = f.word * f.saved.length :=
    UInt32.toNat_ofNat_of_lt' (show f.word * f.saved.length < 2 ^ 32 by omega)
  have hraw : (UInt32.ofNat (f.word + f.locals.toNat + f.word * f.saved.length)).toNat =
      f.word + f.locals.toNat + f.word * f.saved.length :=
    UInt32.toNat_ofNat_of_lt'
      (show f.word + f.locals.toNat + f.word * f.saved.length < 2 ^ 32 by omega)
  rw [Frame.total, Checked.add_eq_ok_iff.mpr hslots, Checked.ok_bind,
    Checked.mul_eq_ok (hregisters.trans (by rw [hcount, word])), Checked.ok_bind,
    Checked.add_eq_ok_iff.mpr (hraw.trans (by rw [hslots, hregisters])), Checked.ok_bind,
    roundUp_eq_ok_iff, hraw, UInt32.toNat_ofNat_of_lt' (show f.size < 2 ^ 32 by omega)]
  refine ⟨by decide, ?_, rfl⟩
  show _ + 16 < 2 ^ 32
  omega

end Frame

end MicroC
