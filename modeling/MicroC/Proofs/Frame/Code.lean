import MicroC.Proofs.Frame.Size
import MicroC.Proofs.RiscV.Machine

/-!
The code of a frame that can be reached, written out. No step that makes it can
fail, and every immediate in it has twelve bits.
-/

namespace MicroC

open RiscV

namespace Checked

variable {α β : Type}

theorem mapM_eq_ok {l : List α} {g : α → Except Breach β} {h : α → β}
    (hg : ∀ a ∈ l, g a = .ok (h a)) : l.mapM g = .ok (l.map h) := by
  induction l with
  | nil => rfl
  | cons a l ih =>
      rw [List.mapM_cons, hg a List.mem_cons_self, ok_bind,
        ih fun b hb => hg b (List.mem_cons_of_mem a hb)]
      rfl

variable {a b : Int}

theorem neg_ofInt (hmin : -2 ^ 31 < a) (hmax : a < 2 ^ 31) :
    neg (.ofInt a) = .ok (.ofInt (-a)) := by
  rw [neg, Int32.toInt_ofInt_of_le (by omega) hmax, signed_eq_ok (by omega) (by omega)]

theorem sub_ofInt (ha : 0 ≤ a) (ha' : a < 2 ^ 31) (hb : 0 ≤ b) (hb' : b < 2 ^ 31) :
    sub (.ofInt a) (.ofInt b) = .ok (.ofInt (a - b)) := by
  rw [sub, Int32.toInt_ofInt_of_le (by omega) ha', Int32.toInt_ofInt_of_le (by omega) hb',
    signed_eq_ok (by omega) (by omega)]

theorem smul_ofNat {i n : Nat} (hi : i < 2 ^ 31) (hn : n < 2 ^ 31) (h : i * n < 2 ^ 31) :
    smul (.ofNat i) (.ofInt n) = .ok (.ofInt (i * n : Nat)) := by
  have hi' : (Int32.ofNat i).toInt = i := Int32.toInt_ofNat_of_lt hi
  rw [smul, hi', Int32.toInt_ofInt_of_le (by omega) (by omega), ← Int.natCast_mul,
    signed_eq_ok (by omega) (by omega)]

end Checked

theorem toInt32_ofNat (n : Nat) : (UInt32.ofNat n).toInt32 = .ofInt n := by
  rfl

namespace RiscV.Instr

/-- The immediate of an addition, or the offset of a load or a store. -/
def immediate? : Instr → Option Int32
  | addi _ _ immediate => some immediate
  | load _ _ offset _ | store _ _ offset _ => some offset
  | _ => none

/-- The immediate, if there is one, has twelve bits. -/
def Short (i : Instr) : Prop := ∀ value ∈ i.immediate?, -2048 ≤ value.toInt ∧ value.toInt ≤ 2047

theorem short_of_fits {i : Instr} {value : Int} (h : fitsImmediate value = true)
    (hi : i.immediate? = some (.ofInt value)) : i.Short := by
  rintro value' hvalue
  obtain rfl := Option.some.inj (hi.symm.trans hvalue)
  rw [toInt_ofInt_of_fitsImmediate h]
  exact fitsImmediate_iff.mp h

theorem short_of_none {i : Instr} (hi : i.immediate? = none) : i.Short := by
  intro value hvalue
  cases hi.symm.trans hvalue

/-- The register that an instruction stores, with the offset and the base of the place. -/
def stored? : Instr → Option (Reg × Int32 × Reg)
  | store _ rs offset base => some (rs, offset, base)
  | _ => none

/-- The register that an instruction loads, with the offset and the base of the place. -/
def loaded? : Instr → Option (Reg × Int32 × Reg)
  | load _ rd offset base => some (rd, offset, base)
  | _ => none

end RiscV.Instr

namespace Frame

variable {f : Frame}

/-- The preserved registers with their offsets from `sp`. -/
def places (f : Frame) : List (Reg × Nat) := f.saved.zipIdx.map fun p => (p.1, p.2 * f.word)

theorem toInt32_registerBytes (f : Frame) : f.target.registerBytes.toInt32 = .ofInt f.word := by
  rw [word, ← toInt32_ofNat, UInt32.ofNat_toNat]

theorem map_fst_places (f : Frame) : f.places.map Prod.fst = f.saved := by
  rw [places, List.map_map]
  exact List.zipIdx_map_fst 0 f.saved

theorem mem_places {p : Reg × Nat} (hp : p ∈ f.places) :
    p.1 ∈ f.saved ∧ p.2 + f.word ≤ f.word * f.saved.length := by
  obtain ⟨⟨reg, i⟩, hi, rfl⟩ := List.mem_map.mp hp
  obtain ⟨hlt, hreg⟩ := List.mem_zipIdx' hi
  refine ⟨hreg ▸ List.getElem_mem hlt, ?_⟩
  calc
    i * f.word + f.word = f.word * (i + 1) := by rw [Nat.mul_succ, Nat.mul_comm]
    _ ≤ f.word * f.saved.length := Nat.mul_le_mul_left _ hlt

theorem Sound.savedAt (h : f.Sound) :
    f.savedAt = .ok (f.places.map fun p => (p.1, .ofInt p.2)) := by
  rw [Frame.savedAt, places, List.map_map]
  apply Checked.mapM_eq_ok
  rintro ⟨reg, i⟩ hi
  have hlt : i < f.saved.length := (List.mem_zipIdx' hi).1
  have hlength := h.length_saved
  have hword := f.word_le
  have hproduct : i * f.word ≤ 11 * 8 := Nat.mul_le_mul (by omega) hword
  have hoffset := Checked.smul_ofNat (i := i) (n := f.word) (by omega) (by omega) (by omega)
  simp only [toInt32_registerBytes, hoffset]
  rfl

/-- Stores the preserved registers. -/
def saving (f : Frame) : List Instr :=
  f.places.map fun p => .store f.target.registerWidth p.1 (.ofInt p.2) .sp

/-- Loads the preserved registers, the last one first. -/
def restoring (f : Frame) : List Instr :=
  f.places.reverse.map fun p => .load f.target.registerWidth p.1 (.ofInt p.2) .sp

theorem Sound.saves (h : f.Sound) : f.saves = .ok f.saving := by
  rw [Frame.saves, h.savedAt, Checked.ok_bind, saving, List.map_map]
  rfl

theorem Sound.restores (h : f.Sound) : f.restores = .ok f.restoring := by
  rw [Frame.restores, h.savedAt, Checked.ok_bind, restoring, ← List.map_reverse, List.map_map]
  rfl

theorem fitsImmediate_neg_word (f : Frame) : fitsImmediate (-f.word) = true := by
  have hword := f.word_le
  rw [fitsImmediate_iff]
  omega

theorem fitsImmediate_neg_size (h : f.size ≤ 2047) : fitsImmediate (-f.size) = true := by
  rw [fitsImmediate_iff]
  omega

theorem fitsImmediate_size_sub_word (h : f.size ≤ 2047) :
    fitsImmediate (f.size - f.word) = true := by
  have hle := f.le_size
  rw [fitsImmediate_iff]
  omega

/-- Makes room for a frame of few bytes, and stores `s0`. -/
def linking (f : Frame) : List Instr :=
  [.addi .sp .sp (.ofInt (-f.size)),
    .store f.target.registerWidth .s0 (.ofInt (f.size - f.word)) .sp]

/-- Makes room for a frame of many bytes, and stores `s0`. -/
def linkingFar (f : Frame) : List Instr :=
  [.li .t0 (Int32.ofInt f.size).toInt64, .sub .sp .sp .t0, .add .t0 .sp .t0,
    .store f.target.registerWidth .s0 (.ofInt (-f.word)) .t0]

def unlinking (f : Frame) : List Instr :=
  [.load f.target.registerWidth .s0 (.ofInt (f.size - f.word)) .sp, .addi .sp .sp (.ofInt f.size)]

def unlinkingFar (f : Frame) : List Instr :=
  [.mv .t0 .s0, .load f.target.registerWidth .s0 (.ofInt (-f.word)) .t0, .mv .sp .t0]

theorem Sound.toNat_total (h : f.Sound) : (UInt32.ofNat f.size).toNat = f.size :=
  UInt32.toNat_ofNat_of_lt' (Nat.lt_trans h.size_lt (by decide))

theorem Sound.prologue_near (h : f.Sound) (hsize : f.size ≤ 2047) :
    f.prologue = .ok (f.linking ++ f.saving ++ [.addi .s0 .sp (.ofInt f.size)]) := by
  have hword := f.word_le
  have hdown := Checked.neg_ofInt (a := f.size) (by omega) (by omega)
  have hlink := Checked.sub_ofInt (a := f.size) (b := f.word) (by omega) (by omega) (by omega)
    (by omega)
  simp only [Frame.prologue, h.total, h.saves, Checked.ok_bind, toInt32_ofNat,
    toInt32_registerBytes, h.toNat_total, fitsImmediate_natCast.mpr hsize, if_true, hdown, hlink]
  rfl

theorem Sound.prologue_far (h : f.Sound) (hsize : ¬f.size ≤ 2047) :
    f.prologue = .ok (f.linkingFar ++ f.saving ++ [.mv .s0 .t0]) := by
  have hword := f.word_le
  have hlink := Checked.neg_ofInt (a := f.word) (by omega) (by omega)
  simp only [Frame.prologue, h.total, h.saves, Checked.ok_bind, toInt32_ofNat,
    toInt32_registerBytes, h.toNat_total, mt fitsImmediate_natCast.mp hsize, hlink]
  rfl

theorem Sound.epilogue_near (h : f.Sound) (hsize : f.size ≤ 2047) :
    f.epilogue = .ok (f.restoring ++ f.unlinking ++ [.ret]) := by
  have hword := f.word_le
  have hlink := Checked.sub_ofInt (a := f.size) (b := f.word) (by omega) (by omega) (by omega)
    (by omega)
  simp only [Frame.epilogue, h.total, h.restores, Checked.ok_bind, toInt32_ofNat,
    toInt32_registerBytes, h.toNat_total, fitsImmediate_natCast.mpr hsize, if_true, hlink,
    List.append_assoc]
  rfl

theorem Sound.epilogue_far (h : f.Sound) (hsize : ¬f.size ≤ 2047) :
    f.epilogue = .ok (f.restoring ++ f.unlinkingFar ++ [.ret]) := by
  have hword := f.word_le
  have hlink := Checked.neg_ofInt (a := f.word) (by omega) (by omega)
  simp only [Frame.epilogue, h.total, h.restores, Checked.ok_bind, toInt32_ofNat,
    toInt32_registerBytes, h.toNat_total, mt fitsImmediate_natCast.mp hsize, hlink,
    List.append_assoc]
  rfl

theorem Sound.exists_prologue (h : f.Sound) : ∃ code, f.prologue = .ok code := by
  by_cases hsize : f.size ≤ 2047
  · exact ⟨_, h.prologue_near hsize⟩
  · exact ⟨_, h.prologue_far hsize⟩

theorem Sound.exists_epilogue (h : f.Sound) : ∃ code, f.epilogue = .ok code := by
  by_cases hsize : f.size ≤ 2047
  · exact ⟨_, h.epilogue_near hsize⟩
  · exact ⟨_, h.epilogue_far hsize⟩

/-! ### Immediates -/

open Instr (Short short_of_fits short_of_none)

theorem Sound.fitsImmediate_of_mem_places (h : f.Sound) {p : Reg × Nat} (hp : p ∈ f.places) :
    fitsImmediate (p.2 : Int) = true := by
  have hplace := (mem_places hp).2
  have hsaved : f.word * f.saved.length ≤ 8 * 11 := Nat.mul_le_mul f.word_le h.length_saved
  rw [fitsImmediate_natCast]
  omega

theorem Sound.short_saving (h : f.Sound) : ∀ i ∈ f.saving, i.Short := by
  intro i hi
  obtain ⟨p, hp, rfl⟩ := List.mem_map.mp hi
  exact short_of_fits (h.fitsImmediate_of_mem_places hp) rfl

theorem Sound.short_restoring (h : f.Sound) : ∀ i ∈ f.restoring, i.Short := by
  intro i hi
  obtain ⟨p, hp, rfl⟩ := List.mem_map.mp hi
  exact short_of_fits (h.fitsImmediate_of_mem_places (List.mem_reverse.mp hp)) rfl

theorem Sound.short_prologue (h : f.Sound) :
    ∃ code, f.prologue = .ok code ∧ ∀ i ∈ code, i.Short := by
  by_cases hsize : f.size ≤ 2047
  · refine ⟨_, h.prologue_near hsize, ?_⟩
    simp only [List.forall_mem_append, linking, List.forall_mem_cons]
    exact ⟨⟨⟨short_of_fits (fitsImmediate_neg_size hsize) rfl,
      short_of_fits (fitsImmediate_size_sub_word hsize) rfl, List.forall_mem_nil _⟩,
      h.short_saving⟩, short_of_fits (fitsImmediate_natCast.mpr hsize) rfl, List.forall_mem_nil _⟩
  · refine ⟨_, h.prologue_far hsize, ?_⟩
    simp only [List.forall_mem_append, linkingFar, List.forall_mem_cons]
    exact ⟨⟨⟨short_of_none rfl, short_of_none rfl, short_of_none rfl,
      short_of_fits f.fitsImmediate_neg_word rfl, List.forall_mem_nil _⟩, h.short_saving⟩,
      short_of_none rfl, List.forall_mem_nil _⟩

theorem Sound.short_epilogue (h : f.Sound) :
    ∃ code, f.epilogue = .ok code ∧ ∀ i ∈ code, i.Short := by
  by_cases hsize : f.size ≤ 2047
  · refine ⟨_, h.epilogue_near hsize, ?_⟩
    simp only [List.forall_mem_append, unlinking, List.forall_mem_cons]
    exact ⟨⟨h.short_restoring, short_of_fits (fitsImmediate_size_sub_word hsize) rfl,
      short_of_fits (fitsImmediate_natCast.mpr hsize) rfl, List.forall_mem_nil _⟩,
      short_of_none rfl, List.forall_mem_nil _⟩
  · refine ⟨_, h.epilogue_far hsize, ?_⟩
    simp only [List.forall_mem_append, unlinkingFar, List.forall_mem_cons]
    exact ⟨⟨h.short_restoring, short_of_none rfl, short_of_fits f.fitsImmediate_neg_word rfl,
      short_of_none rfl, List.forall_mem_nil _⟩, short_of_none rfl, List.forall_mem_nil _⟩

/-! ### Registers in memory -/

/-- Code that enters a function and code that leaves it, which save `s0` and the
registers `regs`: on entry they are stored in this order, and they are loaded from the
same places in the opposite order. -/
def SavesAndRestores (enter leave : List Instr) (regs : List Reg) : Prop :=
  ∃ link saves, link.1 = .s0 ∧ saves.map Prod.fst = regs ∧
    enter.filterMap Instr.stored? = link :: saves ∧
    leave.filterMap Instr.loaded? = saves.reverse ++ [link]

theorem filterMap_saving (f : Frame) :
    f.saving.filterMap Instr.stored? = f.places.map fun p => (p.1, .ofInt p.2, .sp) := by
  rw [saving, List.filterMap_map, ← List.filterMap_eq_map]
  rfl

theorem filterMap_restoring (f : Frame) :
    f.restoring.filterMap Instr.loaded? =
      (f.places.map fun p => (p.1, .ofInt p.2, .sp)).reverse := by
  rw [restoring, List.filterMap_map, ← List.map_reverse, ← List.filterMap_eq_map]
  rfl

theorem Sound.savesAndRestores (h : f.Sound) :
    ∃ enter leave, f.prologue = .ok enter ∧ f.epilogue = .ok leave ∧
      SavesAndRestores enter leave f.saved := by
  have hregs : (f.places.map fun p => (p.1, Int32.ofInt p.2, Reg.sp)).map Prod.fst = f.saved := by
    rw [List.map_map]
    exact f.map_fst_places
  by_cases hsize : f.size ≤ 2047
  · refine ⟨_, _, h.prologue_near hsize, h.epilogue_near hsize,
      (.s0, .ofInt (f.size - f.word), .sp), _, rfl, hregs, ?_, ?_⟩
    · rw [List.filterMap_append, List.filterMap_append, filterMap_saving]
      exact List.append_nil _
    · rw [List.filterMap_append, List.filterMap_append, filterMap_restoring]
      exact List.append_nil _
  · refine ⟨_, _, h.prologue_far hsize, h.epilogue_far hsize, (.s0, .ofInt (-f.word), .t0), _, rfl,
      hregs, ?_, ?_⟩
    · rw [List.filterMap_append, List.filterMap_append, filterMap_saving]
      exact List.append_nil _
    · rw [List.filterMap_append, List.filterMap_append, filterMap_restoring]
      exact List.append_nil _

end Frame

end MicroC
