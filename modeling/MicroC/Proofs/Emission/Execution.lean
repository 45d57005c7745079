import MicroC.Proofs.Emission.Program
import MicroC.Proofs.Frame.Contract

/-!
A compiled function does what its source says: called at its label, it returns
to the caller with the constant of its return statement in `a0`, if it has one,
and leaves the caller's registers and memory alone.
-/

namespace MicroC

open RiscV

namespace RiscV

/-- The code that follows a label. -/
def under (name : String) : List Instr → List Instr
  | [] => []
  | i :: code => if i = .label name then code else under name code

theorem under_append {name : String} {code : List Instr} (h : .label name ∉ code)
    (code' : List Instr) : under name (code ++ code') = under name code' := by
  induction code with
  | nil => rfl
  | cons i code ih =>
      rw [List.mem_cons, not_or] at h
      rw [List.cons_append, under, if_neg (Ne.symm h.1), ih h.2]

/-- Calls the function at a label and runs it until it returns. -/
def Machine.call {target : Target} (m : Machine target) (code : List Instr) (name : String) :
    Option (BitVec target.xlen × Machine target) :=
  m.runToReturn (under name code)

end RiscV

open Grammar

namespace Grammar

variable {d : Definition}

theorem Definition.mem_returns {value : Option Expression} :
    value ∈ d.returns ↔ .ret value ∈ d.body := by
  rw [Definition.returns, List.mem_filterMap]
  constructor
  · rintro ⟨statement, hmem, hvalue⟩
    cases statement with
    | empty => cases hvalue
    | ret value' =>
        cases hvalue
        exact hmem
  · exact fun h => ⟨_, h, rfl⟩

theorem Definition.label_not_mem_routine (target : Target) (d : Definition) (name : String) :
    .label name ∉ d.routine target := by
  have hloads : .label name ∉ loadsValue d.returns := by
    unfold loadsValue
    split <;> simp
  simp [routine, enters, leaves, hloads]

/-- Under the label of a function stands its code. -/
theorem Program.under_code (target : Target) {p : Program} (hp : p.Accepted) (hd : d ∈ p) :
    ∃ rest, under d.name (p.code target) = d.routine target ++ rest := by
  induction p with
  | nil => cases hd
  | cons d' p ih =>
      have hdistinct := hp.distinct
      rw [List.map_cons, List.nodup_cons] at hdistinct
      rw [code_cons]
      rcases List.mem_cons.mp hd with rfl | hd
      · exact ⟨code target p, by simp [Definition.code, under]⟩
      -- Names are distinct, so the label is not in front of a function further up.
      · have hname : d.name ≠ d'.name := fun h => hdistinct.1 (h ▸ List.mem_map_of_mem hd)
        have hlabel : .label d.name ∉ d'.code target := by
          simp [Definition.code, hname, d'.label_not_mem_routine target]
        rw [under_append hlabel]
        exact ih ⟨hdistinct.2, fun e he => hp.supported e (List.mem_cons_of_mem d' he)⟩ hd

end Grammar

namespace Grammar.Definition

variable {target : Target} {d : Definition}

/-- The returned constant stands in `a0`, or `a0` is as it was. -/
structure Answered (d : Definition) (m m' : Machine target) : Prop where
  value : ∀ e, .ret (some e) ∈ d.body →
    ∃ constant, e = .literal constant ∧ (m'.regs .a0).toInt = constant.toInt
  noValue : (∀ e, .ret (some e) ∉ d.body) → m'.regs .a0 = m.regs .a0

/-- What a call of a function does to the machine of its caller. -/
structure Performed (d : Definition) (m m' : Machine target) : Prop extends d.Answered m m' where
  regs : ∀ r ∈ [.ra, .sp, .s0] ++ Reg.preserved, m'.regs r = m.regs r
  mem : ∀ b, ¬Covers (m.regs .sp - .ofNat _ 16) 16 b → m'.mem b = m.mem b

theorem toInt_ofInt_xlen (target : Target) {value : Int} (hmin : 0 ≤ value)
    (hmax : value ≤ 2 ^ 31 - 1) : (BitVec.ofInt target.xlen value).toInt = value := by
  rw [BitVec.toInt_ofInt]
  cases target <;> simp only [Target.xlen] <;> exact Int.bmod_eq_of_le (by omega) (by omega)

/-- The only instruction between entering and leaving touches `a0` alone. -/
theorem run_loadsValue (hd : d.Supported) (hspellable : ∀ kind ∈ d.kinds, kind.Spellable)
    (m : Machine target) :
    ∃ m', m.run (loadsValue d.returns) = some m' ∧ d.Answered m m' ∧
      (∀ r, r ≠ .a0 → m'.regs r = m.regs r) ∧ m'.mem = m.mem := by
  have hvalue : ∀ e, .ret (some e) ∈ d.body ↔ some e ∈ d.returns := fun e => mem_returns.symm
  have honce := hd.once
  cases hreturns : d.returns with
  | nil => exact ⟨m, rfl, ⟨by simp [hvalue, hreturns], fun _ => rfl⟩, fun _ _ => rfl, rfl⟩
  | cons first later =>
      rw [hreturns] at honce
      obtain rfl : later = [] :=
        List.length_eq_zero_iff.mp (Nat.le_zero.mp (Nat.le_of_succ_le_succ honce))
      rcases first with - | constant | name
      · exact ⟨m, rfl, ⟨by simp [hvalue, hreturns], fun _ => rfl⟩, fun _ _ => rfl, rfl⟩
      · have hmem : .ret (some (.literal constant)) ∈ d.body := by simp [hvalue, hreturns]
        have hmax : constant.toInt ≤ 2 ^ 31 - 1 := hd.value _ ((hvalue _).mp hmem)
        have hmin : 0 ≤ constant.toInt := spellable_body hspellable (.literal constant)
          (List.mem_flatMap.mpr ⟨_, hmem, by simp [Statement.kinds, Statement.valueKinds,
            Expression.kinds]⟩)
        refine ⟨m.set .a0 (.ofInt _ constant.toInt), ?_, ⟨?_, ?_⟩, ?_, rfl⟩
        · rw [loadsValue, Machine.run, Instr.step_li .a0 (by omega) (by omega)]
          rfl
        · intro e he
          obtain rfl : e = .literal constant := by simpa [hvalue, hreturns] using he
          exact ⟨constant, rfl, by simp [toInt_ofInt_xlen target hmin hmax]⟩
        · exact fun hnone => absurd hmem (hnone _)
        · intro r hr
          simp [hr]
      · exact (hd.value (.named name) (by simp [hreturns])).elim

theorem size_empty (target : Target) : (Frame.empty target).size = 16 := by
  cases target <;> rfl

/-- The code of a function, wherever it stands. -/
theorem run_routine (hd : d.Supported) (hspellable : ∀ kind ∈ d.kinds, kind.Spellable)
    (rest : List Instr) (m : Machine target) :
    ∃ m', m.runToReturn (d.routine target ++ rest) = some (m.regs .ra, m') ∧ d.Performed m m' := by
  have hsound := (Frame.Reached.empty target).sound
  have hbody : ∀ m₁ : Machine target, ∃ m₂, m₁.run (loadsValue d.returns) = some m₂ ∧
      (Frame.empty target).Keeps m₁ m₂ := by
    intro m₁
    obtain ⟨m₂, hrun, -, hregs, hmem⟩ := run_loadsValue hd hspellable m₁
    exact ⟨m₂, hrun, hregs .sp nofun, hregs .s0 nofun, hregs .ra nofun, fun b _ => by rw [hmem]⟩
  obtain ⟨m₁, m₂, m', hreturn, hentered, hrun, hleft⟩ :=
    Frame.runToReturn_around hsound (prologue_empty target) (epilogue_empty target) hbody rest m
  obtain ⟨m₂', hrun', hanswered, hregs, hmem⟩ := run_loadsValue hd hspellable m₁
  obtain rfl := Option.some.inj (hrun.symm.trans hrun')
  have hkept : ∀ r, r ≠ .sp → r ≠ .s0 → r ≠ .t0 → m'.regs r = m₂.regs r :=
    fun r hsp hs0 ht0 => hleft.regs r hsp hs0 ht0 nofun
  refine ⟨m', hreturn, ⟨⟨?_, ?_⟩, ?_, ?_⟩⟩
  · rw [hkept .a0 nofun nofun nofun]
    exact hanswered.value
  · intro hnone
    rw [hkept .a0 nofun nofun nofun, hanswered.noValue hnone,
      hentered.regs .a0 nofun nofun nofun]
  · intro r hr
    by_cases hsp : r = .sp
    · rw [hsp, hleft.sp]
    by_cases hs0 : r = .s0
    · rw [hs0, hleft.s0]
    have hother : r ≠ .t0 ∧ r ≠ .a0 := by
      revert r
      decide
    rw [hkept r hsp hs0 hother.1, hregs r hother.2, hentered.regs r hsp hs0 hother.1]
  · intro b hb
    rw [← size_empty target] at hb
    rw [hleft.mem, hmem, hentered.mem_of_not_covers hsound hb]

end Grammar.Definition

end MicroC
