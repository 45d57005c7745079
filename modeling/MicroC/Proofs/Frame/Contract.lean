import MicroC.Proofs.Frame.Code
import MicroC.Proofs.RiscV.Machine

/-!
Entering a function and leaving it are inverse to each other, whatever the
function does in between, as long as it keeps `sp`, `s0` and the bytes in which
its frame holds registers.
-/

namespace MicroC

open RiscV

namespace RiscV.Machine

variable {target : Target} {word : Nat}

/-- Storing registers one above the other, from the place `k` on: each store
leaves the places below it alone. -/
theorem run_saving (hword : target.registerWidth.bytes = word) (rs : List Reg) (k : Nat)
    (m : Machine target) (hfits : (k + rs.length) * word ≤ 2048) :
    ∃ m', run (((rs.zipIdx k).map fun p => (p.1, p.2 * word)).map fun p =>
        .store target.registerWidth p.1 (.ofInt p.2) .sp) m = some m' ∧ m'.regs = m.regs ∧
      (∀ b, ¬(k * word ≤ (b - m.regs .sp).toNat ∧
        (b - m.regs .sp).toNat < (k + rs.length) * word) → m'.mem b = m.mem b) ∧
      ∀ p ∈ (rs.zipIdx k).map fun p => (p.1, p.2 * word),
        m'.read target.registerWidth (m.regs .sp + .ofNat _ p.2) = m.regs p.1 := by
  induction rs generalizing k m with
  | nil => exact ⟨m, rfl, rfl, fun _ _ => rfl, nofun⟩
  | cons reg rs ih =>
      have hpow := two_pow_le_two_pow_xlen target
      have hpos : 0 < word := by
        rw [← hword]
        cases target <;> decide
      simp only [List.length_cons, Nat.add_mul, Nat.one_mul] at hfits
      have himm : fitsImmediate (k * word : Nat) = true := fitsImmediate_natCast.mpr (by omega)
      have hslot : ∀ b, Covers (m.regs .sp + .ofNat _ (k * word)) target.registerWidth.bytes b ↔
          k * word ≤ (b - m.regs .sp).toNat ∧ (b - m.regs .sp).toNat < k * word + word := by
        intro b
        rw [covers_add (by omega) (by omega), hword]
      have hstep := Instr.step_store reg .sp himm m
      rw [BitVec.ofInt_natCast] at hstep
      -- The rest is stored above the first place, so it is still there at the end.
      let m₁ := m.write target.registerWidth (m.regs .sp + .ofNat _ (k * word)) (m.regs reg)
      obtain ⟨m', hrun, hregs, hmem, hread⟩ := ih (k + 1) m₁ (by
        simp only [Nat.add_mul, Nat.one_mul]
        omega)
      simp only [m₁, regs_write, Nat.add_mul, Nat.one_mul] at hregs hmem hread
      refine ⟨m', ?_, hregs, ?_, ?_⟩
      · rw [List.zipIdx_cons, List.map_cons, List.map_cons, run, hstep]
        exact hrun
      · intro b hb
        simp only [List.length_cons, Nat.add_mul, Nat.one_mul] at hb
        have hhead : ¬Covers (m.regs .sp + .ofNat _ (k * word)) target.registerWidth.bytes b := by
          rw [hslot]
          omega
        rw [hmem b (by omega), mem_write_of_not_covers hhead]
      · intro p hp
        rw [List.zipIdx_cons, List.map_cons, List.mem_cons] at hp
        rcases hp with rfl | hp
        · have hkept : ∀ b, Covers (m.regs .sp + .ofNat _ (k * word)) target.registerWidth.bytes b →
              m'.mem b = m₁.mem b := fun b hb => hmem b (by
            rw [hslot] at hb
            omega)
          rw [read_congr hkept]
          exact read_write m _ _
        · exact hread p hp

/-- Loading registers with values that stand in memory, in any order. -/
theorem run_restoring {value : Reg → BitVec target.xlen} {places : List (Reg × Nat)}
    {m : Machine target}
    (hplaces : ∀ p ∈ places, p.1 ≠ .zero ∧ p.1 ≠ .sp ∧ p.2 ≤ 2047 ∧
      m.read target.registerWidth (m.regs .sp + .ofNat _ p.2) = value p.1) :
    ∃ m', run (places.map fun p => .load target.registerWidth p.1 (.ofInt p.2) .sp) m = some m' ∧
      m'.mem = m.mem ∧
      ∀ r, m'.regs r = if r ∈ places.map Prod.fst then value r else m.regs r := by
  induction places generalizing m with
  | nil => exact ⟨m, rfl, rfl, fun _ => rfl⟩
  | cons p places ih =>
      obtain ⟨hzero, hsp, hoffset, hread⟩ := hplaces p List.mem_cons_self
      have hstep := Instr.step_load p.1 .sp (fitsImmediate_natCast.mpr hoffset) m
      rw [BitVec.ofInt_natCast, hread] at hstep
      -- No load moves `sp`, so the later offsets still find their values.
      have hsp' : (m.set p.1 (value p.1)).regs .sp = m.regs .sp := by
        rw [regs_set hzero, if_neg (Ne.symm hsp)]
      obtain ⟨m', hrun, hmem, hregs⟩ := ih (m := m.set p.1 (value p.1)) fun q hq => by
        obtain ⟨hzero', hsp'', hoffset', hread'⟩ := hplaces q (List.mem_cons_of_mem p hq)
        exact ⟨hzero', hsp'', hoffset', by rw [read_set, hsp', hread']⟩
      refine ⟨m', ?_, hmem, fun r => ?_⟩
      · rw [List.map_cons, run, hstep]
        exact hrun
      · rw [hregs r, regs_set hzero, List.map_cons]
        by_cases hr : r = p.1
        · rw [if_pos hr, if_pos (List.mem_cons.mpr (.inl hr)), hr, ite_self]
        · rw [if_neg hr]
          simp only [List.mem_cons, hr, false_or]

end RiscV.Machine

namespace Frame

variable {f : Frame}

/-- The bytes in which a frame holds registers: those that it preserves, from
`sp` on, and the caller's `s0`, just below the caller's `sp`. -/
def Owns (f : Frame) (m : Machine f.target) (b : BitVec f.target.xlen) : Prop :=
  Covers (m.regs .sp) (f.word * f.saved.length) b ∨
    Covers (m.regs .s0 - .ofNat _ f.word) f.word b

/-- A function was entered with the frame `f` when the machine was `m`. -/
structure Entered (f : Frame) (m m' : Machine f.target) : Prop where
  sp : m'.regs .sp = m.regs .sp - .ofNat _ f.size
  s0 : m'.regs .s0 = m.regs .sp
  regs : ∀ r, r ≠ .sp → r ≠ .s0 → r ≠ .t0 → m'.regs r = m.regs r
  mem : ∀ b, ¬f.Owns m' b → m'.mem b = m.mem b

/-- What the body of a function must not change. -/
structure Keeps (f : Frame) (m m' : Machine f.target) : Prop where
  sp : m'.regs .sp = m.regs .sp
  s0 : m'.regs .s0 = m.regs .s0
  ra : m'.regs .ra = m.regs .ra
  mem : ∀ b, f.Owns m b → m'.mem b = m.mem b

/-- Leaving a function turns the machine `m` into `m'`, where the machine was
`entry` when the function was entered. -/
structure Left (f : Frame) (entry m m' : Machine f.target) : Prop where
  sp : m'.regs .sp = entry.regs .sp
  s0 : m'.regs .s0 = entry.regs .s0
  saved : ∀ r ∈ f.saved, m'.regs r = entry.regs r
  regs : ∀ r, r ≠ .sp → r ≠ .s0 → r ≠ .t0 → r ∉ f.saved → m'.regs r = m.regs r
  mem : m'.mem = m.mem

/-- The frame of the machine `m` holds the registers of the machine `entry`. -/
structure Holds (f : Frame) (entry m : Machine f.target) : Prop where
  sp : m.regs .sp = entry.regs .sp - .ofNat _ f.size
  s0 : m.regs .s0 = entry.regs .sp
  link : m.read f.target.registerWidth (m.regs .s0 - .ofNat _ f.word) = entry.regs .s0
  saved : ∀ p ∈ f.places,
    m.read f.target.registerWidth (m.regs .sp + .ofNat _ p.2) = entry.regs p.1

theorem bytes_eq_word (f : Frame) : f.target.registerWidth.bytes = f.word :=
  bytes_registerWidth f.target

theorem Sound.saved_le (h : f.Sound) : f.word * f.saved.length ≤ 88 :=
  Nat.mul_le_mul f.word_le h.length_saved

/-- The caller's `s0` stands at the top of the frame. -/
theorem Sound.covers_link (h : f.Sound) {start b : BitVec f.target.xlen} :
    Covers (start - .ofNat _ f.word) f.word b ↔
      f.size - f.word ≤ (b - (start - .ofNat _ f.size)).toNat ∧
        (b - (start - .ofNat _ f.size)).toNat < f.size := by
  have hpow := two_pow_le_two_pow_xlen f.target
  have hsize := h.size_lt
  have hle := f.le_size
  have hstart : start - .ofNat _ f.word =
      start - .ofNat _ f.size + .ofNat _ (f.size - f.word) := by
    rw [← BitVec.ofNat_sub_ofNat_of_le f.size f.word (by omega) (by omega)]
    grind
  rw [hstart, covers_add (by omega) (by omega)]
  omega

theorem not_preserved {r : Reg} (h : r ∈ Reg.preserved) :
    r ≠ .zero ∧ r ≠ .sp ∧ r ≠ .s0 ∧ r ≠ .t0 := by
  revert r
  decide

theorem Holds.of_keeps {entry m m' : Machine f.target} (hf : f.Sound) (h : f.Holds entry m)
    (hkeeps : f.Keeps m m') : f.Holds entry m' := by
  have hpow := two_pow_le_two_pow_xlen f.target
  have hsaved := hf.saved_le
  have hword := f.bytes_eq_word
  refine ⟨hkeeps.sp.trans h.sp, hkeeps.s0.trans h.s0, ?_, ?_⟩
  · rw [hkeeps.s0, ← h.link]
    exact Machine.read_congr fun b hb => hkeeps.mem b (.inr (hword ▸ hb))
  · intro p hp
    have hplace := (mem_places hp).2
    rw [hkeeps.sp, ← h.saved p hp]
    refine Machine.read_congr fun b hb => hkeeps.mem b (.inl ?_)
    rw [covers_add (by omega) (by omega)] at hb
    rw [Covers]
    omega

/-- A frame lies below the caller's `sp`. -/
theorem Entered.mem_of_not_covers {m m' : Machine f.target} (hf : f.Sound) (h : f.Entered m m')
    {b : BitVec f.target.xlen} (hb : ¬Covers (m.regs .sp - .ofNat _ f.size) f.size b) :
    m'.mem b = m.mem b := by
  have hle := f.le_size
  apply h.mem
  rw [Covers] at hb
  rintro (hsaved | hlink)
  · rw [h.sp, Covers] at hsaved
    omega
  · rw [h.s0, hf.covers_link] at hlink
    omega

/-! ### Entering -/

/-- Room for the frame was made and `s0` was stored in it. -/
structure Linked (f : Frame) (m m' : Machine f.target) : Prop where
  sp : m'.regs .sp = m.regs .sp - .ofNat _ f.size
  regs : ∀ r, r ≠ .sp → r ≠ .t0 → m'.regs r = m.regs r
  mem : m'.mem = (m.write f.target.registerWidth (m.regs .sp - .ofNat _ f.word) (m.regs .s0)).mem

theorem Linked.run_saving {m m₁ : Machine f.target} (hf : f.Sound) (h : f.Linked m m₁) :
    ∃ m₂, Machine.run f.saving m₁ = some m₂ ∧ m₂.regs = m₁.regs ∧
      f.Entered m (m₂.set .s0 (m.regs .sp)) ∧ f.Holds m (m₂.set .s0 (m.regs .sp)) := by
  have hsaved := hf.saved_le
  have hle := f.le_size
  have hword := f.bytes_eq_word
  have hcount : (0 + f.saved.length) * f.word = f.word * f.saved.length := by
    rw [Nat.zero_add, Nat.mul_comm]
  obtain ⟨m₂, hrun, hregs, hmem, hread⟩ := Machine.run_saving hword f.saved 0 m₁ (by omega)
  rw [hcount] at hmem
  have hsp : (m₂.set .s0 (m.regs .sp)).regs .sp = m₁.regs .sp := by simp [hregs]
  have hs0 : (m₂.set .s0 (m.regs .sp)).regs .s0 = m.regs .sp := by simp
  refine ⟨m₂, hrun, hregs, ⟨hsp.trans h.sp, hs0, ?_, ?_⟩, ⟨hsp.trans h.sp, hs0, ?_, ?_⟩⟩
  · intro r hr hr₀ hr₁
    simp [hr₀, hregs, h.regs r hr hr₁]
  · intro b hb
    simp only [Owns, not_or] at hb
    rw [hsp, hs0, Covers] at hb
    have hout : ¬Covers (m.regs .sp - .ofNat _ f.word) f.target.registerWidth.bytes b := by
      rw [hword]
      exact hb.2
    rw [Machine.mem_set, hmem b (by omega), h.mem, Machine.mem_write_of_not_covers hout]
  · have hkept : ∀ b, Covers (m.regs .sp - .ofNat _ f.word) f.target.registerWidth.bytes b →
        m₂.mem b = (m.write f.target.registerWidth (m.regs .sp - .ofNat _ f.word)
          (m.regs .s0)).mem b := by
      -- Measured from the new `sp`, the registers end where `s0` begins or below.
      intro b hb
      rw [hword, hf.covers_link, ← h.sp] at hb
      rw [hmem b (by omega), h.mem]
    rw [hs0, Machine.read_set, Machine.read_congr hkept, Machine.read_write]
  · intro p hp
    obtain ⟨-, hpsp, -, hpt0⟩ := not_preserved (hf.saved p.1 (mem_places hp).1)
    rw [hsp, Machine.read_set, hread p hp, h.regs p.1 hpsp hpt0]

theorem linked_linking (hsize : f.size ≤ 2047) (m : Machine f.target) :
    ∃ m', Machine.run f.linking m = some m' ∧ f.Linked m m' := by
  have hrun : Machine.run f.linking m = some ((m.set .sp (m.regs .sp - .ofNat _ f.size)).write
      f.target.registerWidth (m.regs .sp - .ofNat _ f.word) (m.regs .s0)) := by
    simp only [linking, Machine.run, Instr.step_addi _ _ (fitsImmediate_neg_size hsize),
      Instr.step_store _ _ (fitsImmediate_size_sub_word hsize), Option.bind_some, add_ofInt_neg]
    simp [sub_add_ofInt_sub]
  refine ⟨_, hrun, ?_, ?_, ?_⟩
  · simp
  · intro r hr _
    simp [hr]
  · exact Machine.mem_write_congr rfl _ _ _

theorem linked_linkingFar (hf : f.Sound) (m : Machine f.target) :
    ∃ m', Machine.run f.linkingFar m = some m' ∧ f.Linked m m' ∧ m'.regs .t0 = m.regs .sp := by
  have hsize := hf.size_lt
  have hvalue : (Int32.ofInt f.size).toInt64.toInt = f.size := by
    rw [Int32.toInt_toInt64, Int32.toInt_ofInt_of_le (by omega) (by omega)]
  have hli : (Instr.li .t0 (Int32.ofInt f.size).toInt64).step m =
      some (m.set .t0 (.ofNat _ f.size)) := by
    rw [Instr.step_li .t0 (by omega) (by omega), hvalue, BitVec.ofInt_natCast]
  have hrun : Machine.run f.linkingFar m = some ((((m.set .t0 (.ofNat _ f.size)).set .sp
      (m.regs .sp - .ofNat _ f.size)).set .t0 (m.regs .sp)).write f.target.registerWidth
      (m.regs .sp - .ofNat _ f.word) (m.regs .s0)) := by
    simp only [linkingFar, Machine.run, hli, Instr.step_store _ _ f.fitsImmediate_neg_word,
      Option.bind_some, add_ofInt_neg]
    simp [Instr.step]
  refine ⟨_, hrun, ⟨?_, ?_, ?_⟩, ?_⟩
  · simp
  · intro r hr hr'
    simp [hr, hr']
  · exact Machine.mem_write_congr rfl _ _ _
  · simp

/-- The code that enters a function, whichever way it addresses the frame. -/
theorem exists_run_prologue (hf : f.Sound) :
    ∃ code, f.prologue = .ok code ∧ ∀ m : Machine f.target, ∃ m', Machine.run code m = some m' ∧
      f.Entered m m' ∧ f.Holds m m' := by
  by_cases hsize : f.size ≤ 2047
  · refine ⟨_, hf.prologue_near hsize, fun m => ?_⟩
    obtain ⟨m₁, hrun₁, hlinked⟩ := linked_linking hsize m
    obtain ⟨m₂, hrun₂, hregs, hentered, hholds⟩ := hlinked.run_saving hf
    have hs0 : m₂.regs .sp + .ofInt _ f.size = m.regs .sp := by
      rw [hregs, hlinked.sp, BitVec.ofInt_natCast, BitVec.sub_add_cancel]
    refine ⟨_, ?_, hentered, hholds⟩
    simp only [Machine.run_append, hrun₁, hrun₂, Option.bind_some, Machine.run,
      Instr.step_addi _ _ (fitsImmediate_natCast.mpr hsize), hs0]
  · refine ⟨_, hf.prologue_far hsize, fun m => ?_⟩
    obtain ⟨m₁, hrun₁, hlinked, ht0⟩ := linked_linkingFar hf m
    obtain ⟨m₂, hrun₂, hregs, hentered, hholds⟩ := hlinked.run_saving hf
    have hs0 : m₂.regs .t0 = m.regs .sp := by rw [hregs, ht0]
    refine ⟨_, ?_, hentered, hholds⟩
    simp only [Machine.run_append, hrun₁, hrun₂, Option.bind_some, Machine.run, Instr.step, hs0]

/-! ### Leaving -/

/-- The preserved registers have their values on entry again, and nothing else
has changed. -/
structure Restored (f : Frame) (entry m m' : Machine f.target) : Prop where
  regs : ∀ r, m'.regs r = if r ∈ f.saved then entry.regs r else m.regs r
  mem : m'.mem = m.mem

variable {entry m m₁ m' : Machine f.target}

theorem Holds.run_restoring (hf : f.Sound) (h : f.Holds entry m) :
    ∃ m', Machine.run f.restoring m = some m' ∧ f.Restored entry m m' := by
  have hsaved := hf.saved_le
  have hplaces : ∀ p ∈ f.places.reverse, p.1 ≠ .zero ∧ p.1 ≠ .sp ∧ p.2 ≤ 2047 ∧
      m.read f.target.registerWidth (m.regs .sp + .ofNat _ p.2) = entry.regs p.1 := by
    intro p hp
    rw [List.mem_reverse] at hp
    obtain ⟨hreg, hplace⟩ := mem_places hp
    obtain ⟨hzero, hsp, -, -⟩ := not_preserved (hf.saved p.1 hreg)
    exact ⟨hzero, hsp, by omega, h.saved p hp⟩
  obtain ⟨m', hrun, hmem, hregs⟩ := Machine.run_restoring hplaces
  refine ⟨m', hrun, fun r => ?_, hmem⟩
  simp only [hregs r, List.map_reverse, List.mem_reverse, map_fst_places]

theorem Restored.left (hf : f.Sound) (h : f.Restored entry m m₁)
    (hsp : m'.regs .sp = entry.regs .sp) (hs0 : m'.regs .s0 = entry.regs .s0)
    (hregs : ∀ r, r ≠ .sp → r ≠ .s0 → r ≠ .t0 → m'.regs r = m₁.regs r) (hmem : m'.mem = m₁.mem) :
    f.Left entry m m' := by
  refine ⟨hsp, hs0, ?_, ?_, hmem.trans h.mem⟩
  · intro r hr
    obtain ⟨-, hsp', hs0', ht0'⟩ := not_preserved (hf.saved r hr)
    rw [hregs r hsp' hs0' ht0', h.regs, if_pos hr]
  · intro r hsp' hs0' ht0' hr
    rw [hregs r hsp' hs0' ht0', h.regs, if_neg hr]

/-- Where the caller's `s0` stands, it is read from the restored machine too. -/
theorem Restored.read_link (hholds : f.Holds entry m) (h : f.Restored entry m m₁) :
    m₁.read f.target.registerWidth (entry.regs .sp - .ofNat _ f.word) = entry.regs .s0 := by
  rw [← hholds.link, hholds.s0]
  exact Machine.read_congr fun b _ => by rw [h.mem]

theorem Restored.run_unlinking (hf : f.Sound) (hsize : f.size ≤ 2047) (hholds : f.Holds entry m)
    (h : f.Restored entry m m₁) :
    ∃ m', Machine.run f.unlinking m₁ = some m' ∧ f.Left entry m m' := by
  have hsp : m₁.regs .sp = entry.regs .sp - .ofNat _ f.size := by
    rw [h.regs, if_neg fun hr => (not_preserved (hf.saved _ hr)).2.1 rfl, hholds.sp]
  have hrun : Machine.run f.unlinking m₁ =
      some ((m₁.set .s0 (entry.regs .s0)).set .sp (entry.regs .sp)) := by
    simp only [unlinking, Machine.run, Instr.step_load _ _ (fitsImmediate_size_sub_word hsize),
      Instr.step_addi _ _ (fitsImmediate_natCast.mpr hsize), hsp, sub_add_ofInt_sub,
      h.read_link hholds, Option.bind_some]
    simp [hsp, BitVec.ofInt_natCast]
  refine ⟨_, hrun, h.left hf ?_ ?_ ?_ rfl⟩
  · simp
  · simp
  · intro r hr hr' _
    simp [hr, hr']

theorem Restored.run_unlinkingFar (hf : f.Sound) (hholds : f.Holds entry m)
    (h : f.Restored entry m m₁) :
    ∃ m', Machine.run f.unlinkingFar m₁ = some m' ∧ f.Left entry m m' := by
  have hs0 : m₁.regs .s0 = entry.regs .sp := by
    rw [h.regs, if_neg fun hr => (not_preserved (hf.saved _ hr)).2.2.1 rfl, hholds.s0]
  have hrun : Machine.run f.unlinkingFar m₁ = some (((m₁.set .t0 (entry.regs .sp)).set .s0
      (entry.regs .s0)).set .sp (entry.regs .sp)) := by
    simp only [unlinkingFar, Machine.run, Instr.step_load _ _ f.fitsImmediate_neg_word,
      add_ofInt_neg]
    simp [Instr.step, hs0, h.read_link hholds]
  refine ⟨_, hrun, h.left hf ?_ ?_ ?_ rfl⟩
  · simp
  · simp
  · intro r hr hr' hr''
    simp [hr, hr', hr'']

/-- The code that leaves a function, whichever way it addresses the frame. -/
theorem exists_run_epilogue (hf : f.Sound) :
    ∃ code, f.epilogue = .ok (code ++ [.ret]) ∧ ∀ entry m : Machine f.target, f.Holds entry m →
      ∃ m', Machine.run code m = some m' ∧ f.Left entry m m' := by
  by_cases hsize : f.size ≤ 2047
  · refine ⟨_, hf.epilogue_near hsize, fun entry m hholds => ?_⟩
    obtain ⟨m₁, hrun, hrestored⟩ := hholds.run_restoring hf
    obtain ⟨m', hrun', hleft⟩ := hrestored.run_unlinking hf hsize hholds
    exact ⟨m', by rw [Machine.run_append, hrun, Option.bind_some, hrun'], hleft⟩
  · refine ⟨_, hf.epilogue_far hsize, fun entry m hholds => ?_⟩
    obtain ⟨m₁, hrun, hrestored⟩ := hholds.run_restoring hf
    obtain ⟨m', hrun', hleft⟩ := hrestored.run_unlinkingFar hf hholds
    exact ⟨m', by rw [Machine.run_append, hrun, Option.bind_some, hrun'], hleft⟩

theorem regs_ra (hf : f.Sound) (hentered : f.Entered entry m) (hkeeps : f.Keeps m m₁)
    (hleft : f.Left entry m₁ m') : m'.regs .ra = entry.regs .ra := by
  have hra : .ra ∉ f.saved := fun h => absurd (hf.saved _ h) (by decide)
  rw [hleft.regs .ra nofun nofun nofun hra, hkeeps.ra, hentered.regs .ra nofun nofun nofun]

/-- A body between the code that enters a function and the code that leaves it
returns to the caller. -/
theorem runToReturn_around (hf : f.Sound) {enter body leave : List Instr}
    (henter : f.prologue = .ok enter) (hleave : f.epilogue = .ok leave)
    (hbody : ∀ m₁ : Machine f.target, ∃ m₂, m₁.run body = some m₂ ∧ f.Keeps m₁ m₂)
    (rest : List Instr) (m : Machine f.target) :
    ∃ m₁ m₂ m', m.runToReturn (enter ++ body ++ leave ++ rest) = some (m.regs .ra, m') ∧
      f.Entered m m₁ ∧ m₁.run body = some m₂ ∧ f.Left m m₂ m' := by
  obtain ⟨code, hcode, hrun⟩ := exists_run_prologue hf
  obtain ⟨code', hcode', hrun'⟩ := exists_run_epilogue hf
  obtain rfl := Except.ok.inj (hcode.symm.trans henter)
  obtain rfl := Except.ok.inj (hcode'.symm.trans hleave)
  obtain ⟨m₁, hrun₁, hentered, hholds⟩ := hrun m
  obtain ⟨m₂, hrun₂, hkeeps⟩ := hbody m₁
  obtain ⟨m', hrun₃, hleft⟩ := hrun' m m₂ (hholds.of_keeps hf hkeeps)
  refine ⟨m₁, m₂, m', ?_, hentered, hrun₂, hleft⟩
  rw [List.append_assoc, List.append_assoc, Machine.runToReturn_append hrun₁,
    Machine.runToReturn_append hrun₂, List.append_assoc, Machine.runToReturn_append hrun₃,
    ← regs_ra hf hentered hkeeps hleft]
  rfl

/-- A function entered with any frame and left with the same frame gives the
caller its registers back, unless its body breaks into the frame. -/
theorem prologue_epilogue_inverse (hf : f.Reached) :
    ∃ total enter leave, f.total = .ok total ∧ total.toNat = f.size ∧ f.prologue = .ok enter ∧
      f.epilogue = .ok (leave ++ [.ret]) ∧
      ∀ m : Machine f.target, ∃ m₁, Machine.run enter m = some m₁ ∧ f.Entered m m₁ ∧
        ∀ m₂, f.Keeps m₁ m₂ → ∃ m₃, Machine.run leave m₂ = some m₃ ∧ f.Left m m₂ m₃ ∧
          m₃.regs .ra = m.regs .ra := by
  have hsound := hf.sound
  obtain ⟨enter, henter, hrun⟩ := exists_run_prologue hsound
  obtain ⟨leave, hleave, hrun'⟩ := exists_run_epilogue hsound
  refine ⟨_, enter, leave, hsound.total, hsound.toNat_total, henter, hleave, fun m => ?_⟩
  obtain ⟨m₁, hrun₁, hentered, hholds⟩ := hrun m
  refine ⟨m₁, hrun₁, hentered, fun m₂ hkeeps => ?_⟩
  obtain ⟨m₃, hrun₃, hleft⟩ := hrun' m m₂ (hholds.of_keeps hsound hkeeps)
  exact ⟨m₃, hrun₃, hleft, regs_ra hsound hentered hkeeps hleft⟩

/-- A frame that is too large for immediates. -/
theorem prologue_epilogue_inverse_large :
    Reached ⟨.rv64, 4096, [.s1]⟩ ∧ ∃ enter, prologue ⟨.rv64, 4096, [.s1]⟩ = .ok enter ∧
      ∀ m : Machine .rv64, ∃ m', Machine.run enter m = some m' ∧
        m'.regs .sp = m.regs .sp - .ofNat _ 4112 := by
  have hslot : (Frame.empty .rv64).reserve 4096 = .ok (-4104, ⟨.rv64, 4096, []⟩) := by decide
  have hsaved : preserve ⟨.rv64, 4096, []⟩ .s1 = .ok ⟨.rv64, 4096, [.s1]⟩ := by decide
  have hf : Reached ⟨.rv64, 4096, [.s1]⟩ := .preserve (.reserve (.empty .rv64) hslot) hsaved
  obtain ⟨total, enter, leave, -, -, henter, -, hrun⟩ := prologue_epilogue_inverse hf
  refine ⟨hf, enter, henter, fun m => ?_⟩
  obtain ⟨m', hm', hentered, -⟩ := hrun m
  exact ⟨m', hm', hentered.sp⟩

end Frame

end MicroC
