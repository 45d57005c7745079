import MicroC.Proofs.Context.Current

/-!
Scratch registers. The count of the registers that a function was given, the order in
which registers are handed out and the registers that its frame saves stay in step with
each other, whatever else is done between the beginning of the function and its end. So
no register is handed out twice, and the frame saves exactly those that a callee must
preserve.
-/

namespace MicroC

open RiscV

namespace Context

theorem nodup_scratchRegisters : scratchRegisters.Nodup := by decide

theorem mem_temporaries_iff {reg : Reg} (h : reg ∈ scratchRegisters) :
    reg ∈ Reg.temporaries ↔ reg ∉ Reg.preserved := by
  revert reg
  decide

theorem not_reserved {reg : Reg} (h : reg ∈ scratchRegisters) :
    reg ∉ [.t0, .s0, .sp, .ra, .a0, .a1, .a2, .a3, .a4, .a5, .a6, .a7] := by
  revert reg
  decide

variable {c : Context} {state : CurrentFunction}

theorem takeScratch_of_none (hstate : c.function = some state)
    (h : scratchRegisters[state.scratches]? = none) :
    c.takeScratch = .error (.failure (.outOfRegisters state.name)) := by
  simp only [takeScratch, current_of_function hstate, h]

theorem takeScratch_of_some {reg : Reg} {frame : Frame} (hstate : c.function = some state)
    (h : scratchRegisters[state.scratches]? = some reg)
    (hframe : (if reg ∈ Reg.temporaries then .ok state.frame else state.frame.preserve reg) =
      .ok frame) :
    c.takeScratch = .ok (reg, { c with
      function := some { state with frame, scratches := state.scratches + 1 } }) := by
  simp only [takeScratch, current_of_function hstate, h, hframe]

end Context

open Context

namespace CurrentFunction

/-- The registers `regs` were handed out in a function. -/
structure Gave (state : CurrentFunction) (regs : List Reg) : Prop where
  sound : state.frame.Sound
  order : regs <+: scratchRegisters
  count : state.scratches = regs.length
  saved : state.frame.saved = regs.filter (· ∈ Reg.preserved)

variable {state state' : CurrentFunction} {regs rest : List Reg} {reg : Reg} {c : Context}

theorem gave_begun (name : String) (target : Target) :
    Gave ⟨name, .empty target, 0, 0, false⟩ [] :=
  ⟨(Frame.Reached.empty target).sound, List.nil_prefix, rfl, rfl⟩

theorem Gave.proceeds {op : Operation} (h : state.Gave regs) (hproceeds : state.Proceeds op state')
    (hop : op ≠ .scratch) : state'.Gave regs := by
  obtain ⟨hcount, hsaved⟩ := hproceeds.registers hop
  exact ⟨hproceeds.sound h.sound, h.order, hcount.trans h.count, hsaved.trans h.saved⟩

/-- The frame that saves the next register, if that one must be preserved. -/
theorem Gave.exists_frame (h : state.Gave regs) (hreg : regs ++ reg :: rest = scratchRegisters) :
    ∃ frame, (if reg ∈ Reg.temporaries then .ok state.frame else state.frame.preserve reg) =
      .ok frame ∧ frame.saved = (regs ++ [reg]).filter (· ∈ Reg.preserved) := by
  have hmem : reg ∈ scratchRegisters := hreg ▸ List.mem_append_right regs List.mem_cons_self
  have hfilter : (regs ++ [reg]).filter (· ∈ Reg.preserved) =
      state.frame.saved ++ [reg].filter (· ∈ Reg.preserved) := by
    rw [List.filter_append, h.saved]
  by_cases htemporary : reg ∈ Reg.temporaries
  · refine ⟨state.frame, if_pos htemporary, ?_⟩
    have hreg : reg ∉ Reg.preserved := (mem_temporaries_iff hmem).mp htemporary
    simp [hfilter, hreg]
  · have hpreserved : reg ∈ Reg.preserved := not_not.mp (mt (mem_temporaries_iff hmem).mpr htemporary)
    have hnew : reg ∉ state.frame.saved := by
      intro hsaved
      rw [h.saved] at hsaved
      have hnodup := nodup_scratchRegisters
      rw [← hreg, List.nodup_middle, List.nodup_cons] at hnodup
      exact hnodup.1 (List.mem_append_left rest (List.mem_of_mem_filter hsaved))
    refine ⟨{ state.frame with saved := state.frame.saved ++ [reg] }, ?_, ?_⟩
    · rw [if_neg htemporary, Frame.preserve, if_pos hpreserved, if_neg hnew]
    · simp [hfilter, hpreserved]

theorem Gave.exists_takeScratch (h : state.Gave regs) (hstate : c.function = some state)
    (hreg : regs ++ reg :: rest = scratchRegisters) :
    ∃ state', c.takeScratch = .ok (reg, { c with function := some state' }) ∧
      state'.name = state.name ∧ state'.Gave (regs ++ [reg]) := by
  obtain ⟨frame, hframe, hsaved⟩ := h.exists_frame hreg
  have hnext : scratchRegisters[state.scratches]? = some reg := by
    rw [h.count, ← hreg, List.getElem?_append_right Nat.le.refl, Nat.sub_self]
    rfl
  have hsound : frame.Sound := by
    split at hframe
    · cases hframe
      exact h.sound
    · exact h.sound.preserve hframe
  refine ⟨_, takeScratch_of_some hstate hnext hframe, rfl, hsound, ⟨rest, ?_⟩, ?_, hsaved⟩
  · rw [← hreg, List.append_assoc]
    rfl
  · rw [List.length_append, h.count]
    rfl

end CurrentFunction

namespace Operation

variable {s : Session} {state : CurrentFunction} {regs : List Reg}

/-- A request for a register, where some are left and where none are. -/
theorem run_scratch (hstate : s.context.function = some state) (h : state.Gave regs) :
    (∃ reg rest state' s', regs ++ reg :: rest = scratchRegisters ∧
        Emit.run (Operation.run .scratch) s = (.ok (.register reg), s') ∧
        s'.context.function = some state' ∧ state'.name = state.name ∧
        state'.Gave (regs ++ [reg])) ∨
      regs = scratchRegisters ∧
        Emit.run (Operation.run .scratch) s =
          (.error (.failure (.outOfRegisters state.name)), s) := by
  obtain ⟨rest, hrest⟩ := h.order
  simp only [Operation.run, Emit.run_map, Emit.run_takeScratch]
  cases rest with
  | nil =>
      rw [List.append_nil] at hrest
      have hnone : scratchRegisters[state.scratches]? = none := by
        rw [h.count, ← hrest, List.getElem?_eq_none Nat.le.refl]
      rw [takeScratch_of_none hstate hnone]
      exact .inr ⟨hrest, rfl⟩
  | cons reg rest =>
      obtain ⟨state', htake, hname, hgave⟩ := h.exists_takeScratch hstate hrest
      rw [htake]
      exact .inl ⟨reg, rest, state', _, hrest, rfl, rfl, hname, hgave⟩

theorem scratch_of_gave (hstate : s.context.function = some state) (h : state.Gave regs) :
    (∀ reg, scratchRegisters[regs.length]? = some reg → scratch.reply s = .ok (.register reg)) ∧
      (regs.length = 17 →
        scratch.reply s = .error (.failure (.outOfRegisters state.name)) ∧ scratch.after s = s) := by
  rw [reply, after]
  obtain ⟨next, rest, state', s', hrest, hrun, -⟩ | ⟨rfl, hrun⟩ := run_scratch hstate h
  · rw [hrun]
    refine ⟨fun reg hreg => ?_, fun hlength => ?_⟩
    · have hnext : scratchRegisters[regs.length]? = some next := by
        rw [← hrest, List.getElem?_append_right Nat.le.refl, Nat.sub_self]
        rfl
      rw [Option.some.inj (hnext.symm.trans hreg)]
    · have htotal : (regs ++ next :: rest).length = 17 := congrArg List.length hrest
      rw [List.length_append, List.length_cons] at htotal
      omega
  · rw [hrun]
    refine ⟨fun reg hreg => ?_, fun _ => ⟨rfl, rfl⟩⟩
    rw [List.getElem?_eq_none Nat.le.refl] at hreg
    cases hreg

theorem gave_after {op : Operation} (hstate : s.context.function = some state)
    (h : state.Gave regs) (hop : op ≠ .closeFunction) :
    ∃ state', (op.after s).context.function = some state' ∧ state'.name = state.name ∧
      state'.Gave (regs ++ (op.given? Reply.register? s).toList) := by
  by_cases hscratch : op = .scratch
  · subst hscratch
    rw [given?, reply, after]
    obtain ⟨reg, rest, state', s', -, hrun, hstate', hname, hgave⟩ | ⟨-, hrun⟩ :=
      run_scratch hstate h
    · rw [hrun]
      exact ⟨state', hstate', hname, hgave⟩
    · rw [hrun]
      exact ⟨state, hstate, rfl, (List.append_nil regs).symm ▸ h⟩
  · rw [given?_register_of_ne hscratch]
    obtain ⟨records, -, hstep⟩ := op.step_after s
    cases hstep.turns with
    | outside hnone _ => cases hnone.symm.trans hstate
    | opened _ hopen => cases (openFunction_eq_ok hopen).1.symm.trans hstate
    | closed hclose _ => exact absurd hclose hop
    | @inside state₁ state' h₁ h' hproceeds =>
        obtain rfl := Option.some.inj (h₁.symm.trans hstate)
        exact ⟨state', h', hproceeds.name, (List.append_nil regs).symm ▸ h.proceeds hproceeds hscratch⟩

theorem gave_afterAll {ops : List Operation} (hstate : s.context.function = some state)
    (h : state.Gave regs) (hops : .closeFunction ∉ ops) :
    ∃ state', (afterAll ops s).context.function = some state' ∧ state'.name = state.name ∧
      state'.Gave (regs ++ given Reply.register? ops s) := by
  induction ops generalizing s state regs with
  | nil => exact ⟨state, hstate, rfl, (List.append_nil regs).symm ▸ h⟩
  | cons op ops ih =>
      rw [List.mem_cons, not_or] at hops
      obtain ⟨state₁, hstate₁, hname₁, h₁⟩ := gave_after hstate h (Ne.symm hops.1)
      obtain ⟨state', hstate', hname', h'⟩ := ih hstate₁ h₁ hops.2
      rw [List.append_assoc, ← given_cons] at h'
      exact ⟨state', hstate', hname'.trans hname₁, h'⟩

/-- The end of a function gives its frame, unless its scope was left before. -/
theorem reply_closeFunction (hstate : s.context.function = some state)
    (hframe : state.frame.Sound) :
    closeFunction.reply s =
      if s.context.inner = [] then .error (.breach .globalScopePopped)
      else .ok (.finished state.frame) := by
  cases hinner : s.context.inner with
  | nil =>
      simp only [reply, Operation.run, Emit.run_map, Emit.closeFunction, Emit.run_bind,
        Emit.run_context, hstate, Emit.run_setContext, Emit.run_exitScope, Context.exitScope, hinner]
      rfl
  | cons scope outer =>
      simp only [reply, Operation.run, Emit.run_map,
        Emit.run_closeFunction hstate hinner hframe.total]
      rfl

/-- Whatever is done in a function up to its end, the registers that it is given are the
first ones of a fixed order, and its frame saves those of them that a callee must
preserve, and no other. When none are left, further requests are refused and change
nothing. With no operations at all this is how every function starts, whatever the
functions before it were given. -/
theorem registers_in_order {name : String} (hopen : (openFunction name).reply s = .ok .done)
    {ops : List Operation} (hops : .closeFunction ∉ ops) :
    let order : List Reg := [.t1, .t2, .t3, .t4, .t5, .t6,
      .s1, .s2, .s3, .s4, .s5, .s6, .s7, .s8, .s9, .s10, .s11]
    let s₁ := (openFunction name).after s
    let s' := afterAll ops s₁
    let regs := given Reply.register? ops s₁
    regs <+: order ∧ regs.Nodup ∧
      (∀ reg ∈ regs, reg ∉ [.t0, .s0, .sp, .ra, .a0, .a1, .a2, .a3, .a4, .a5, .a6, .a7]) ∧
      (∃ frame enter leave, s'.context.currentFrame = .ok frame ∧
        frame.saved = regs.filter (· ∈ Reg.preserved) ∧
        closeFunction.reply s' =
          (if s'.context.inner = [] then .error (.breach .globalScopePopped)
            else .ok (.finished frame)) ∧
        frame.prologue = .ok enter ∧ frame.epilogue = .ok leave ∧
        Frame.SavesAndRestores enter leave frame.saved) ∧
      (∀ reg, order[regs.length]? = some reg → scratch.reply s' = .ok (.register reg)) ∧
      (regs.length = 17 →
        scratch.reply s' = .error (.failure (.outOfRegisters name)) ∧ scratch.after s' = s') := by
  intro order s₁ s' regs
  obtain ⟨state, hstate, hname, hgave⟩ :=
    gave_afterAll (function_of_openFunction hopen) (CurrentFunction.gave_begun ..) hops
  have hgave : state.Gave regs := hgave
  have horder : regs <+: order := hgave.order
  obtain ⟨enter, leave, henter, hleave, hsaves⟩ := hgave.sound.savesAndRestores
  obtain ⟨hnext, hspent⟩ := scratch_of_gave hstate hgave
  rw [hname] at hspent
  exact ⟨horder, horder.sublist.nodup nodup_scratchRegisters, fun reg hreg =>
    not_reserved (horder.mem hreg), ⟨state.frame, enter, leave, currentFrame_of_function hstate,
      hgave.saved, reply_closeFunction hstate hgave.sound, henter, hleave, hsaves⟩, hnext, hspent⟩

/-- A function that takes all registers, with a frame of more than four thousand bytes,
after a function that took one. -/
theorem registers_in_order_spent :
    let s := afterAll [.openFunction "f", .scratch, .closeFunction] (.ofContext (.empty .rv64))
    let ops := slot 4096 :: List.replicate 9 scratch ++
      [enterScope, openFunction "h", exitScope, label] ++ List.replicate 9 scratch
    let s' := afterAll ops ((openFunction "g").after s)
    (openFunction "g").reply s = .ok .done ∧
      scratch.reply s' = .error (.failure (.outOfRegisters "g")) ∧
      ∃ frame enter leave, closeFunction.reply s' = .ok (.finished frame) ∧
        frame.saved = Reg.preserved ∧ frame.prologue = .ok enter ∧ frame.epilogue = .ok leave ∧
        Frame.SavesAndRestores enter leave frame.saved := by
  intro s ops s'
  have hopen : (openFunction "g").reply s = .ok .done := by cbv
  have hregs : given Reply.register? ops ((openFunction "g").after s) = scratchRegisters := by
    dsimp only [ops, s]
    cbv
  have hinner : s'.context.inner = [.empty] := by
    dsimp only [s', ops, s]
    cbv
  have hops : closeFunction ∉ ops := by simp [ops]
  obtain ⟨-, -, -, ⟨frame, enter, leave, -, hsaved, hclose, henter, hleave, hsaves⟩, -, hspent⟩ :=
    registers_in_order hopen hops
  rw [hregs] at hsaved hspent
  rw [if_neg (by rw [hinner]; exact List.cons_ne_nil _ _)] at hclose
  exact ⟨hopen, (hspent rfl).1, frame, enter, leave, hclose, hsaved, henter, hleave, hsaves⟩

end Operation

end MicroC
