import MicroC.Proofs.Context.Current
import MicroC.Proofs.Emission.Shape
import MicroC.Proofs.Frame.Contract

/-!
What a function returns under a name. The value is in `a0` before the function is left,
whether it came from a register or from a slot, and whichever way the slot was reached.
Leaving writes neither `a0` nor `ra`, so the value is still there at the return, on every
machine and not only on those that entered the function through its own code.
-/

namespace MicroC

open RiscV

namespace RiscV

variable {target : Target}

namespace Instr

/-- The register that an instruction writes. -/
def written? : Instr → Option Reg
  | add rd _ _ | sub rd _ _ | addi rd _ _ | load _ rd _ _ | li rd _ | mv rd _ => some rd
  | _ => none

/-- An instruction that has an encoding and changes nothing but a register. -/
def Quiet (target : Target) : Instr → Prop
  | addi _ _ immediate => fitsImmediate immediate.toInt = true
  | load width _ offset _ => (width.available target && fitsImmediate offset.toInt) = true
  | li _ immediate => fitsRegister target immediate.toInt = true
  | store .. | ret => False
  | _ => True

theorem Quiet.exists_step {i : Instr} (h : i.Quiet target) (m : Machine target) :
    ∃ m', i.step m = some m' ∧ m'.mem = m.mem ∧
      ∀ r, i.written? ≠ some r → m'.regs r = m.regs r := by
  have hset : ∀ rd value r, some rd ≠ some r → (m.set rd value).regs r = m.regs r :=
    fun rd value r hr => if_neg fun heq => hr (congrArg some heq.1.symm)
  cases i with
  | code | global | label => exact ⟨m, rfl, rfl, fun _ _ => rfl⟩
  | add | sub | mv => exact ⟨_, rfl, rfl, hset _ _⟩
  | addi | load | li => exact ⟨_, if_pos h, rfl, hset _ _⟩
  | store | ret => exact h.elim

theorem quiet_load (rd base : Reg) {value : Int} (h : fitsImmediate value = true) :
    (load target.registerWidth rd (.ofInt value) base).Quiet target := by
  rw [Quiet, available_registerWidth, toInt_ofInt_of_fitsImmediate h, h]
  rfl

theorem quiet_addi (rd rs : Reg) {value : Int} (h : fitsImmediate value = true) :
    (addi rd rs (.ofInt value)).Quiet target := by
  rw [Quiet, toInt_ofInt_of_fitsImmediate h, h]

end Instr

namespace Machine

/-- Code of quiet instructions runs to its end on every machine. -/
theorem exists_run_of_quiet {code : List Instr} (h : ∀ i ∈ code, i.Quiet target)
    (m : Machine target) :
    ∃ m', run code m = some m' ∧ m'.mem = m.mem ∧
      ∀ r, (∀ i ∈ code, i.written? ≠ some r) → m'.regs r = m.regs r := by
  induction code generalizing m with
  | nil => exact ⟨m, rfl, rfl, fun _ _ => rfl⟩
  | cons i code ih =>
      obtain ⟨m₁, hstep, hmem₁, hregs₁⟩ := (h i List.mem_cons_self).exists_step m
      obtain ⟨m', hrun, hmem, hregs⟩ := ih (fun j hj => h j (List.mem_cons_of_mem i hj)) m₁
      refine ⟨m', ?_, hmem.trans hmem₁, fun r hr => ?_⟩
      · rw [run, hstep]
        exact hrun
      · have hrest : ∀ j ∈ code, j.written? ≠ some r := fun j hj => hr j (List.mem_cons_of_mem i hj)
        exact (hregs r hrest).trans (hregs₁ r (hr i List.mem_cons_self))

/-- A value was put into `a0`, with no more than `t0` to help. -/
structure Receives (m : Machine target) (value : BitVec target.xlen) (m' : Machine target) :
    Prop where
  a0 : m'.regs .a0 = value
  regs : ∀ r, r ≠ .a0 → r ≠ .t0 → m'.regs r = m.regs r
  mem : m'.mem = m.mem

theorem Receives.agree {m m₁ m₂ : Machine target} {value : BitVec target.xlen}
    (h₁ : m.Receives value m₁) (h₂ : m.Receives value m₂) :
    m₁.mem = m₂.mem ∧ ∀ r, r ≠ .t0 → m₁.regs r = m₂.regs r := by
  refine ⟨h₁.mem.trans h₂.mem.symm, fun r hr => ?_⟩
  by_cases ha0 : r = .a0
  · rw [ha0, h₁.a0, h₂.a0]
  · rw [h₁.regs r ha0 hr, h₂.regs r ha0 hr]

end Machine

/-! ### Slots and registers -/

/-- Loads a slot by its offset from `s0`. -/
def slotNear (offset : Int32) : List Instr := [.load .word .a0 offset .s0]

/-- Loads a slot by its address. -/
def slotFar (offset : Int32) : List Instr :=
  [.li .t0 offset.toInt64, .add .t0 .s0 .t0, .load .word .a0 0 .t0]

namespace Machine

theorem run_slotNear {offset : Int32} (h : fitsImmediate offset.toInt = true)
    (m : Machine target) :
    ∃ m', m.run (slotNear offset) = some m' ∧
      m.Receives (m.read .word (m.regs .s0 + .ofInt _ offset.toInt)) m' := by
  have hrun : m.run (slotNear offset) =
      some (m.set .a0 (m.read .word (m.regs .s0 + .ofInt _ offset.toInt))) := by
    rw [slotNear, run, Instr.step, h]
    rfl
  exact ⟨_, hrun, by simp, fun r ha0 _ => by simp [ha0], rfl⟩

/-- The sum wraps around in the same way as that of a load does. -/
theorem run_slotFar (offset : Int32) (m : Machine target) :
    ∃ m', m.run (slotFar offset) = some m' ∧
      m.Receives (m.read .word (m.regs .s0 + .ofInt _ offset.toInt)) m' := by
  have hmin : -2 ^ 31 ≤ offset.toInt64.toInt := offset.toInt_toInt64 ▸ offset.le_toInt
  have hmax : offset.toInt64.toInt < 2 ^ 31 := offset.toInt_toInt64 ▸ offset.toInt_lt
  have hli := Instr.step_li .t0 hmin hmax m
  rw [Int32.toInt_toInt64] at hli
  let m₁ := m.set .t0 (.ofInt _ offset.toInt)
  let m₂ := m₁.set .t0 (m₁.regs .s0 + m₁.regs .t0)
  have haddress : m₂.regs .t0 = m.regs .s0 + .ofInt _ offset.toInt := by simp [m₂, m₁]
  have hrun : m.run (slotFar offset) =
      some (m₂.set .a0 (m₂.read .word (m₂.regs .t0 + .ofInt _ 0))) := by
    rw [slotFar, run, hli]
    rfl
  refine ⟨_, hrun, ?_, fun r ha0 ht0 => ?_, rfl⟩
  · rw [haddress]
    simp [m₂, m₁]
  · simp [m₂, m₁, ha0, ht0]

theorem run_mv_a0 (reg : Reg) (m : Machine target) :
    ∃ m', m.run [.mv .a0 reg] = some m' ∧ m.Receives (m.regs reg) m' :=
  ⟨_, rfl, by simp, fun r ha0 _ => by simp [ha0], rfl⟩

end Machine

end RiscV

namespace Frame

variable {f : Frame}

theorem Sound.quiet_restoring (h : f.Sound) :
    ∀ i ∈ f.restoring, i.Quiet f.target ∧ i.written? ≠ some .a0 ∧ i.written? ≠ some .ra := by
  intro i hi
  obtain ⟨p, hp, rfl⟩ := List.mem_map.mp hi
  have hplace := List.mem_reverse.mp hp
  have hsaved : p.1 ∈ Reg.preserved := h.saved p.1 (mem_places hplace).1
  refine ⟨Instr.quiet_load p.1 .sp (h.fitsImmediate_of_mem_places hplace), fun ha0 => ?_,
    fun hra => ?_⟩
  · rw [Option.some.inj ha0] at hsaved
    exact absurd hsaved (by decide)
  · rw [Option.some.inj hra] at hsaved
    exact absurd hsaved (by decide)

/-- A function is left by quiet instructions, none of which writes `a0` or `ra`. -/
theorem Sound.quiet_epilogue (h : f.Sound) :
    ∃ leave, f.epilogue = .ok (leave ++ [.ret]) ∧
      ∀ i ∈ leave, i.Quiet f.target ∧ i.written? ≠ some .a0 ∧ i.written? ≠ some .ra := by
  by_cases hsize : f.size ≤ 2047
  · refine ⟨_, h.epilogue_near hsize, ?_⟩
    simp only [List.forall_mem_append, unlinking, List.forall_mem_cons]
    exact ⟨h.quiet_restoring,
      ⟨Instr.quiet_load .s0 .sp (fitsImmediate_size_sub_word hsize), by simp [Instr.written?]⟩,
      ⟨Instr.quiet_addi .sp .sp (fitsImmediate_natCast.mpr hsize), by simp [Instr.written?]⟩,
      List.forall_mem_nil _⟩
  · refine ⟨_, h.epilogue_far hsize, ?_⟩
    simp only [List.forall_mem_append, unlinkingFar, List.forall_mem_cons]
    exact ⟨h.quiet_restoring, ⟨trivial, by simp [Instr.written?]⟩,
      ⟨Instr.quiet_load .s0 .t0 f.fitsImmediate_neg_word, by simp [Instr.written?]⟩,
      ⟨trivial, by simp [Instr.written?]⟩, List.forall_mem_nil _⟩

/-- Leaving gives back control with `a0` and the memory as they are, on every machine. -/
theorem Sound.exists_runToReturn (h : f.Sound) :
    ∃ leave, f.epilogue = .ok leave ∧ (∀ i ∈ leave, i.Short) ∧
      ∀ m : Machine f.target, ∃ m', m.runToReturn leave = some (m.regs .ra, m') ∧
        m'.regs .a0 = m.regs .a0 ∧ m'.mem = m.mem := by
  obtain ⟨leave, hleave, hquiet⟩ := h.quiet_epilogue
  obtain ⟨code, hcode, hshort⟩ := h.short_epilogue
  obtain rfl := Except.ok.inj (hcode.symm.trans hleave)
  refine ⟨_, hleave, hshort, fun m => ?_⟩
  obtain ⟨m', hrun, hmem, hregs⟩ := Machine.exists_run_of_quiet (fun i hi => (hquiet i hi).1) m
  refine ⟨m', ?_, hregs .a0 fun i hi => (hquiet i hi).2.1, hmem⟩
  rw [Machine.runToReturn_append hrun, ← hregs .ra fun i hi => (hquiet i hi).2.2]
  rfl

end Frame

namespace Emit

variable {s : Session} {state : CurrentFunction} {name : String} {load leave : List Instr}

/-- The value of a name is returned by the code `load`, which puts it into `a0`, and the
code `leave`, up to the return in it. -/
structure Returns (s : Session) (name : String) (load leave : List Instr)
    (value : Machine s.context.target → BitVec s.context.target.xlen) : Prop where
  emitted : s.sink.room = none →
    run (Node.emit (.ret (some (.identifier name)))) s = (.ok (), s.left (load ++ leave))
  short : ∀ i ∈ load ++ leave, i.Short
  received : ∀ m : Machine s.context.target, ∃ m', m.run load = some m' ∧ m.Receives (value m) m'
  returned : ∀ m : Machine s.context.target, ∃ m',
    m.runToReturn (load ++ leave) = some (m.regs .ra, m') ∧ m'.regs .a0 = value m ∧ m'.mem = m.mem

theorem run_named (h : Loads s.context (some (.identifier name)) load)
    (hroom : s.sink.room = none) : run (named name) s = (.ok (), s.wrote (listing load)) := by
  cases h with
  | near hname hfits =>
      simp only [named, resolve, run_bind, run_context, hname, run_permitted_ok, hfits, if_true,
        run_instruction hroom, listing_singleton]
  | far hname hfits =>
      simp only [named, resolve, run_bind, run_context, hname, run_permitted_ok, hfits,
        Bool.false_eq_true, if_false, run_instructions hroom]
  | register hname =>
      simp only [named, resolve, run_bind, run_context, hname, run_permitted_ok,
        run_instruction hroom, listing_singleton]

theorem run_emit_ret_identifier (hstate : s.context.function = some state) (name : String) :
    run (Node.emit (.ret (some (.identifier name)))) s =
      run (do named name; Emit.leave) s := by
  simp only [Node.emit, returnStatement, run_bind, run_context, insideFunction_of_function hstate,
    Bool.not_true, Bool.false_eq_true, if_false, returnValue]

theorem returns_of_loads {value : Machine s.context.target → BitVec s.context.target.xlen}
    (hstate : s.context.function = some state) (hleave : state.frame.epilogue = .ok leave)
    (hload : Loads s.context (some (.identifier name)) load)
    (hshort : ∀ i ∈ load, i.Short) (hshort' : ∀ i ∈ leave, i.Short)
    (hreceived : ∀ m : Machine s.context.target, ∃ m', m.run load = some m' ∧ m.Receives (value m) m')
    (hreturned : ∀ m : Machine s.context.target, ∃ m', m.runToReturn leave = some (m.regs .ra, m') ∧
      m'.regs .a0 = m.regs .a0 ∧ m'.mem = m.mem) :
    Returns s name load leave value := by
  refine ⟨fun hroom => ?_, List.forall_mem_append.mpr ⟨hshort, hshort'⟩, hreceived, fun m => ?_⟩
  · have hwrote : (s.wrote (listing load)).context.function = some state := hstate
    rw [run_emit_ret_identifier hstate, run_bind, run_named hload hroom]
    exact (run_leave hwrote hroom hleave).trans (by rw [s.left_wrote])
  · obtain ⟨m₁, hrun, hvalue⟩ := hreceived m
    obtain ⟨m', hreturn, ha0, hmem⟩ := hreturned m₁
    refine ⟨m', ?_, ha0.trans hvalue.a0, hmem.trans hvalue.mem⟩
    rw [Machine.runToReturn_append hrun, hreturn, hvalue.regs .ra (by decide) (by decide)]

theorem run_named_function {label : String} (h : s.context.resolve name = .ok (.function label)) :
    run (named name) s = (.error (.failure (.unsupported (.returnDesignator name))), s) := by
  simp only [named, resolve, run_bind, run_context, h, run_permitted_ok, run_fail]

theorem run_named_error {error : EmitError} (h : s.context.resolve name = .error error) :
    run (named name) s = (.error (.failure error), s) := by
  simp only [named, resolve, run_bind, run_context, h, run_permitted_error]

theorem short_slotNear {offset : Int32} (h : fitsImmediate offset.toInt = true) :
    ∀ i ∈ slotNear offset, i.Short := by
  have hbounds := fitsImmediate_iff.mp h
  simpa [slotNear, Instr.Short, Instr.immediate?] using hbounds

theorem short_slotFar (offset : Int32) : ∀ i ∈ slotFar offset, i.Short := by
  simp [slotFar, Instr.Short, Instr.immediate?]

/-- A name that stands for a slot or a register is returned with the value that it has
before the code of the return runs, at whatever offset the slot is, and even if the
register gets another value when the function is left. A slot that both ways can reach
is loaded with the same effect by both of them. Any other name is refused and leaves the
session as it is. -/
theorem returned_value {s : Session} (hs : s.context.Reachable)
    (hinside : s.context.insideFunction = true) :
    (∃ frame leave, s.context.currentFrame = .ok frame ∧ frame.epilogue = .ok leave ∧ ∀ name,
      (∀ offset, s.context.resolve name = .ok (.stack offset) →
        Returns s name (if fitsImmediate offset.toInt then slotNear offset else slotFar offset)
          leave fun m => m.read .word (m.regs .s0 + .ofInt _ offset.toInt)) ∧
      ∀ reg, s.context.resolve name = .ok (.register reg) →
        Returns s name [.mv .a0 reg] leave fun m => m.regs reg) ∧
    (∀ (target : Target) (m : Machine target) (offset : Int32),
      fitsImmediate offset.toInt = true → ∃ m₁ m₂, m.run (slotNear offset) = some m₁ ∧
        m.run (slotFar offset) = some m₂ ∧ m₁.mem = m₂.mem ∧
        ∀ r, r ≠ .t0 → m₁.regs r = m₂.regs r) ∧
    ∀ name,
      (∀ label, s.context.resolve name = .ok (.function label) →
        run (Node.emit (.ret (some (.identifier name)))) s =
          (.error (.failure (.unsupported (.returnDesignator name))), s)) ∧
      ∀ error, s.context.resolve name = .error error →
        run (Node.emit (.ret (some (.identifier name)))) s = (.error (.failure error), s) := by
  obtain ⟨state, hstate⟩ := Option.isSome_iff_exists.mp hinside
  obtain ⟨leave, hleave, hshort, hreturned⟩ := (hs.sound state hstate).exists_runToReturn
  rw [hs.target_frame hstate] at hreturned
  refine ⟨⟨state.frame, leave, Context.currentFrame_of_function hstate, hleave, fun name =>
    ⟨fun offset hname => ?_, fun reg hname => ?_⟩⟩, fun target m offset hfits => ?_,
    fun name => ⟨fun label hname => ?_, fun error hname => ?_⟩⟩
  · split
    · rename_i hfits
      exact returns_of_loads hstate hleave (.near hname hfits) (short_slotNear hfits) hshort
        (fun m => m.run_slotNear hfits) hreturned
    · rename_i hfits
      exact returns_of_loads hstate hleave (.far hname (Bool.eq_false_of_not_eq_true hfits))
        (short_slotFar offset) hshort (fun m => m.run_slotFar offset) hreturned
  · refine returns_of_loads hstate hleave (.register hname) ?_ hshort (fun m => m.run_mv_a0 reg)
      hreturned
    simp [Instr.Short, Instr.immediate?]
  · obtain ⟨m₁, hrun₁, h₁⟩ := m.run_slotNear hfits
    obtain ⟨m₂, hrun₂, h₂⟩ := m.run_slotFar offset
    exact ⟨m₁, m₂, hrun₁, hrun₂, h₁.agree h₂⟩
  · rw [run_emit_ret_identifier hstate, run_bind, run_named_function hname]
  · rw [run_emit_ret_identifier hstate, run_bind, run_named_error hname]

/-- A slot at the least offset and a register that is restored, in a frame of more than
four thousand bytes, and the name of the function itself. -/
theorem returned_value_distant :
    let s := Operation.afterAll (.openFunction "f" :: .slot 4096 :: List.replicate 7 .scratch ++
      [.declare "x" (.stack (-2147483648)), .declare "y" (.register .s1)])
        (.ofContext (.empty .rv64))
    (∃ frame leave, s.context.currentFrame = .ok frame ∧ frame.saved = [.s1] ∧
      frame.epilogue = .ok leave ∧
      (Returns s "x" (slotFar (-2147483648)) leave fun m =>
        m.read .word (m.regs .s0 + .ofInt _ (-2147483648))) ∧
      Returns s "y" [.mv .a0 .s1] leave fun m => m.regs .s1) ∧
    run (Node.emit (.ret (some (.identifier "f")))) s =
      (.error (.failure (.unsupported (.returnDesignator "f"))), s) := by
  intro s
  have hinside : s.context.insideFunction = true := by
    dsimp only [s]
    cbv
  have hsaved : s.context.currentFrame.map (·.saved) = .ok [.s1] := by
    dsimp only [s]
    cbv
  have hx : s.context.resolve "x" = .ok (.stack (-2147483648)) := by
    dsimp only [s]
    cbv
  have hy : s.context.resolve "y" = .ok (.register .s1) := by
    dsimp only [s]
    cbv
  have hf : s.context.resolve "f" = .ok (.function "f") := by
    dsimp only [s]
    cbv
  obtain ⟨⟨frame, leave, hframe, hleave, hreturns⟩, -, hrefused⟩ :=
    returned_value ⟨.rv64, _, rfl⟩ hinside
  rw [hframe] at hsaved
  exact ⟨⟨frame, leave, hframe, Except.ok.inj hsaved, hleave, (hreturns "x").1 _ hx,
    (hreturns "y").2 _ hy⟩, (hrefused "f").1 "f" hf⟩

end Emit

end MicroC
