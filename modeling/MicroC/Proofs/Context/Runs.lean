import MicroC.Emission.Operation
import MicroC.Proofs.Emission.Effect

/-!
Runs of operations on a context. An operation that stops does not end the run:
the next one finds the context as the one before it has left it, also after a
broken contract. What a single operation can do is said once, and the frame of
the current function stays within its bounds along every run.
-/

namespace MicroC

open RiscV
open Emit (run)
open Journal (Record begun)

namespace Operation

/-- The session that an operation leaves, however it ends. -/
def after (op : Operation) (s : Session) : Session := (Emit.run op.run s).2

def reply (op : Operation) (s : Session) : Except (Halt EmitError) Reply := (Emit.run op.run s).1

/-- The session that operations leave, one after the other. -/
def afterAll (ops : List Operation) (s : Session) : Session := ops.foldl (fun s op => op.after s) s

def replies : List Operation → Session → List (Except (Halt EmitError) Reply)
  | [], _ => []
  | op :: ops, s => op.reply s :: replies ops (op.after s)

theorem afterAll_append (ops ops' : List Operation) (s : Session) :
    afterAll (ops ++ ops') s = afterAll ops' (afterAll ops s) := List.foldl_append

theorem replies_append (ops ops' : List Operation) (s : Session) :
    replies (ops ++ ops') s = replies ops s ++ replies ops' (afterAll ops s) := by
  induction ops generalizing s with
  | nil => rfl
  | cons op ops ih => exact congrArg (op.reply s :: ·) (ih (op.after s))

end Operation

namespace Context

/-- The contexts that a run of operations leads to. -/
def Reachable (c : Context) : Prop :=
  ∃ target ops, (Operation.afterAll ops (.ofContext (.empty target))).context = c

/-! ### One operation -/

/-- What an operation can do to a context, with the functions that it begins. It
may always do nothing, since it may be refused. -/
inductive Step (c : Context) : Operation → List String → Context → Prop
  | nothing {op : Operation} : Step c op [] c
  | enterScope : Step c .enterScope [] c.enterScope
  | exitScope {c' : Context} (h : c.exitScope = .ok c') : Step c .exitScope [] c'
  | declare {name : String} {storage : Storage} {c' : Context}
      (h : c.declare name storage = .ok c') : Step c (.declare name storage) [] c'
  | openFunction {name : String} {c' : Context} (h : c.openFunction name = .ok c') :
      Step c (.openFunction name) [name] c'
  | closeFunction : Step c .closeFunction [] (c.closed c.inner.tail)
  | slot {size : UInt32} {offset : Int32} {c' : Context}
      (h : c.reserveSlot size = .ok (offset, c')) : Step c (.slot size) [] c'
  | unnamedSlot {name : String} {size : UInt32} {offset : Int32} {c' : Context}
      (h : c.reserveSlot size = .ok (offset, c')) : Step c (.namedSlot name size) [] c'
  | namedSlot {name : String} {size : UInt32} {offset : Int32} {c₁ c' : Context}
      (hslot : c.reserveSlot size = .ok (offset, c₁))
      (hname : c₁.declare name (.stack offset) = .ok c') : Step c (.namedSlot name size) [] c'
  | scratch {reg : Reg} {c' : Context} (h : c.takeScratch = .ok (reg, c')) : Step c .scratch [] c'
  | label {text : String} {c' : Context} (h : c.freshLabel = .ok (text, c')) : Step c .label [] c'
  | setReturned {c' : Context} (h : c.setReturned = .ok c') : Step c .setReturned [] c'
  | emit {node : Node} {sink : Sink} {names : List String} {c' : Context}
      (h : c.Advances names c') : Step c (.emit node sink) names c'

end Context

namespace Emit

variable {s : Session}

theorem run_reserveSlot (size : UInt32) :
    run (reserveSlot size) s =
      match s.context.reserveSlot size with
      | .error breach => (.error (.breach breach), s)
      | .ok (offset, c) =>
          (.ok offset, { s with
            context := c
            journal := .slotAllocated size offset :: s.journal }) := by
  simp only [reserveSlot, run_bind, run_context]
  cases s.context.reserveSlot size <;> rfl

theorem run_declare (name : String) (storage : Storage) :
    run (declare name storage) s =
      match s.context.declare name storage with
      | .error error => (.error (.failure error), s)
      | .ok c =>
          (.ok (), { s with
            context := c
            journal := .bound name storage s.context.depth :: s.journal }) := by
  simp only [declare, run_bind, run_context]
  cases s.context.declare name storage <;> rfl

theorem run_exitScope :
    run exitScope s =
      match s.context.exitScope with
      | .error breach => (.error (.breach breach), s)
      | .ok c =>
          (.ok (), { s with context := c, journal := .scopeLeft (c.depth + 1) :: s.journal }) := by
  simp only [exitScope, run_bind, run_context]
  cases s.context.exitScope <;> rfl

theorem run_takeScratch :
    run takeScratch s =
      match s.context.takeScratch with
      | .error stop => (.error stop, s)
      | .ok (reg, c) =>
          (.ok reg, { s with
            context := c
            journal := .scratchGiven reg (c.currentName?.getD "") :: s.journal }) := by
  simp only [takeScratch, run_bind, run_context]
  cases s.context.takeScratch <;> rfl

theorem run_freshLabel :
    run freshLabel s =
      match s.context.freshLabel with
      | .error breach => (.error (.breach breach), s)
      | .ok (text, c) => (.ok text, { s with context := c }) := by
  simp only [freshLabel, run_bind, run_context]
  cases s.context.freshLabel <;> rfl

end Emit

namespace Operation

open Emit Context

theorem step_after (op : Operation) (s : Session) :
    ∃ records, (op.after s).journal = records ++ s.journal ∧
      s.context.Step op (begun records) (op.after s).context := by
  cases op with
  | enterScope => exact ⟨[_], rfl, .enterScope⟩
  | exitScope =>
      simp only [after, Operation.run, run_bind, run_exitScope]
      cases h : s.context.exitScope with
      | error breach => exact ⟨[], rfl, .nothing⟩
      | ok c => exact ⟨[_], rfl, .exitScope h⟩
  | declare name storage =>
      simp only [after, Operation.run, run_bind, run_declare]
      cases h : s.context.declare name storage with
      | error error => exact ⟨[], rfl, .nothing⟩
      | ok c => exact ⟨[_], rfl, .declare h⟩
  | resolve name =>
      simp only [after, Operation.run, run_map, Emit.resolve, run_bind, run_context]
      cases s.context.resolve name <;> exact ⟨[], rfl, .nothing⟩
  | openFunction name =>
      simp only [after, Operation.run, run_bind]
      cases h : s.context.openFunction name with
      | error error =>
          rw [run_openFunction_error h]
          exact ⟨[], rfl, .nothing⟩
      | ok c =>
          rw [run_openFunction h]
          exact ⟨[.functionBegun name, .scopeEntered c.depth], rfl, .openFunction h⟩
  | closeFunction =>
      simp only [after, Operation.run, run_map, Emit.closeFunction, run_bind, run_context]
      cases hfunction : s.context.function with
      | none => exact ⟨[], rfl, .nothing⟩
      | some state =>
          -- The function is forgotten first, and stays so if its scope cannot be left.
          simp only [run_bind, run_setContext, run_exitScope, Context.exitScope]
          have hclosed := Step.closeFunction (c := s.context)
          cases hinner : s.context.inner with
          | nil =>
              rw [hinner] at hclosed
              exact ⟨[], rfl, hclosed⟩
          | cons scope outer =>
              rw [hinner] at hclosed
              cases state.frame.total with
              | error breach => exact ⟨[_], rfl, hclosed⟩
              | ok total => exact ⟨[_, _], rfl, hclosed⟩
  | frame =>
      simp only [after, Operation.run, run_map, Emit.frame, run_bind, run_context]
      cases s.context.currentFrame <;> exact ⟨[], rfl, .nothing⟩
  | slot size =>
      simp only [after, Operation.run, run_map, run_reserveSlot]
      cases h : s.context.reserveSlot size with
      | error breach => exact ⟨[], rfl, .nothing⟩
      | ok slot => exact ⟨[_], rfl, .slot h⟩
  | namedSlot name size =>
      simp only [after, Operation.run, run_bind, run_reserveSlot]
      cases h : s.context.reserveSlot size with
      | error breach => exact ⟨[], rfl, .nothing⟩
      | ok slot =>
          simp only [run_declare]
          cases h' : slot.2.declare name (.stack slot.1) with
          | error error => exact ⟨[_], rfl, .unnamedSlot h⟩
          | ok c => exact ⟨[_, _], rfl, .namedSlot h h'⟩
  | scratch =>
      simp only [after, Operation.run, run_map, run_takeScratch]
      cases h : s.context.takeScratch with
      | error stop => exact ⟨[], rfl, .nothing⟩
      | ok scratch => exact ⟨[_], rfl, .scratch h⟩
  | label =>
      simp only [after, Operation.run, run_map, run_freshLabel]
      cases h : s.context.freshLabel with
      | error breach => exact ⟨[], rfl, .nothing⟩
      | ok label => exact ⟨[], rfl, .label h⟩
  | setReturned =>
      simp only [after, Operation.run, Emit.setReturned, run_bind, run_context]
      cases h : s.context.setReturned with
      | error breach => exact ⟨[], rfl, .nothing⟩
      | ok c => exact ⟨[], rfl, .setReturned h⟩
  | requireReachable =>
      simp only [after, Operation.run, Emit.requireReachable, run_bind, run_context]
      cases s.context.requireReachable <;> exact ⟨[], rfl, .nothing⟩
  | emit node sink =>
      obtain ⟨records, hjournal, hadvances, -⟩ := (effect_emit node { s with sink }).context
      simp only [after, Operation.run, run_bind, run_onto]
      generalize Emit.run node.emit { s with sink } = outcome at hjournal hadvances ⊢
      obtain ⟨(error | breach) | _, s'⟩ := outcome
      all_goals exact ⟨records, hjournal, .emit hadvances⟩

end Operation

/-! ### The current function along a run -/

namespace Context

variable {c c' : Context}

theorem current_eq_ok {state : CurrentFunction} (h : c.current = .ok state) :
    c.function = some state := by
  rw [current] at h
  split at h
  · rename_i hfunction
    cases h
    exact hfunction
  · cases h

theorem exitScope_eq_ok (h : c.exitScope = .ok c') :
    ∃ scope outer, c.inner = scope :: outer ∧ c' = { c with inner := outer } := by
  rw [exitScope] at h
  split at h
  · cases h
  · rename_i scope outer hinner
    cases h
    exact ⟨scope, outer, hinner, rfl⟩

/-- A name is bound in the innermost scope. -/
theorem declare_eq_ok {name : String} {storage : Storage} (h : c.declare name storage = .ok c') :
    (c.inner = [] ∧ c' = { c with globals := c.globals.insert name storage }) ∨
      ∃ scope outer, c.inner = scope :: outer ∧
        c' = { c with inner := scope.insert name storage :: outer } := by
  rw [declare] at h
  split at h
  · rename_i hinner
    split at h
    · cases h
    · cases h
      exact .inl ⟨hinner, rfl⟩
  · rename_i scope outer hinner
    split at h
    · cases h
    · cases h
      exact .inr ⟨scope, outer, hinner, rfl⟩

theorem reserveSlot_eq_ok {size : UInt32} {offset : Int32}
    (h : c.reserveSlot size = .ok (offset, c')) :
    ∃ state frame, c.function = some state ∧ state.frame.reserve size = .ok (offset, frame) ∧
      c' = { c with function := some { state with frame } } := by
  obtain ⟨state, hstate, h⟩ := Checked.bind_eq_ok_iff.mp h
  obtain ⟨⟨offset', frame⟩, hframe, h⟩ := Checked.bind_eq_ok_iff.mp h
  cases h
  exact ⟨state, frame, current_eq_ok hstate, hframe, rfl⟩

theorem takeScratch_eq_ok {reg : Reg} (h : c.takeScratch = .ok (reg, c')) :
    ∃ state frame, c.function = some state ∧
      (frame = state.frame ∨ state.frame.preserve reg = .ok frame) ∧
      c' = { c with
        function := some { state with frame, scratches := state.scratches + 1 } } := by
  rw [takeScratch] at h
  split at h
  · cases h
  · rename_i state hstate
    split at h
    · cases h
    · dsimp only at h
      split at h
      · cases h
      · rename_i reg' _ _ frame hframe
        cases h
        refine ⟨state, frame, current_eq_ok hstate, ?_, rfl⟩
        split at hframe
        · cases hframe
          exact .inl rfl
        · exact .inr hframe

theorem freshLabel_eq_ok {text : String} (h : c.freshLabel = .ok (text, c')) :
    ∃ state labels, c.function = some state ∧
      c' = { c with function := some { state with labels } } := by
  obtain ⟨state, hstate, h⟩ := Checked.bind_eq_ok_iff.mp h
  obtain ⟨labels, -, h⟩ := Checked.bind_eq_ok_iff.mp h
  cases h
  exact ⟨state, labels, current_eq_ok hstate, rfl⟩

theorem setReturned_eq_ok (h : c.setReturned = .ok c') :
    ∃ state, c.function = some state ∧
      c' = { c with function := some { state with returned := true } } := by
  obtain ⟨state, hstate, h⟩ := Checked.bind_eq_ok_iff.mp h
  cases h
  exact ⟨state, current_eq_ok hstate, rfl⟩

/-- Only the current function changes, and its frame stays within its bounds. -/
def Updates (c c' : Context) : Prop :=
  ∃ state state', c.function = some state ∧ c' = { c with function := some state' } ∧
    (state.frame.Sound → state'.frame.Sound)

theorem updates_of_reserveSlot {size : UInt32} {offset : Int32}
    (h : c.reserveSlot size = .ok (offset, c')) : c.Updates c' := by
  obtain ⟨state, frame, hstate, hframe, rfl⟩ := reserveSlot_eq_ok h
  exact ⟨state, _, hstate, rfl, fun hsound => hsound.reserve hframe⟩

theorem updates_of_takeScratch {reg : Reg} (h : c.takeScratch = .ok (reg, c')) : c.Updates c' := by
  obtain ⟨state, frame, hstate, rfl | hframe, rfl⟩ := takeScratch_eq_ok h
  · exact ⟨state, _, hstate, rfl, id⟩
  · exact ⟨state, _, hstate, rfl, fun hsound => hsound.preserve hframe⟩

theorem updates_of_freshLabel {text : String} (h : c.freshLabel = .ok (text, c')) :
    c.Updates c' := by
  obtain ⟨state, labels, hstate, rfl⟩ := freshLabel_eq_ok h
  exact ⟨state, _, hstate, rfl, id⟩

theorem updates_of_setReturned (h : c.setReturned = .ok c') : c.Updates c' := by
  obtain ⟨state, hstate, rfl⟩ := setReturned_eq_ok h
  exact ⟨state, _, hstate, rfl, id⟩

theorem Sound.updates (h : c.Sound) (hc' : c.Updates c') : c'.Sound := by
  obtain ⟨state, state', hstate, rfl, hframe⟩ := hc'
  intro current hcurrent
  cases hcurrent
  exact hframe (h state hstate)

theorem Sound.declare {name : String} {storage : Storage} (h : c.Sound)
    (hc' : c.declare name storage = .ok c') : c'.Sound := by
  obtain ⟨-, rfl⟩ | ⟨scope, outer, -, rfl⟩ := declare_eq_ok hc'
  · exact h
  · exact h

theorem Sound.step {op : Operation} {names : List String} (h : c.Sound)
    (hc' : c.Step op names c') : c'.Sound := by
  cases hc' with
  | nothing | enterScope => exact h
  | exitScope hexit =>
      obtain ⟨scope, outer, -, rfl⟩ := exitScope_eq_ok hexit
      exact h
  | declare hname => exact h.declare hname
  | openFunction hopen =>
      obtain ⟨-, -, rfl⟩ := openFunction_eq_ok hopen
      intro state hstate
      cases hstate
      exact (Frame.Reached.empty _).sound
  | closeFunction => exact fun state hstate => by cases hstate
  | slot hslot | unnamedSlot hslot => exact h.updates (updates_of_reserveSlot hslot)
  | namedSlot hslot hname => exact (h.updates (updates_of_reserveSlot hslot)).declare hname
  | scratch hscratch => exact h.updates (updates_of_takeScratch hscratch)
  | label hlabel => exact h.updates (updates_of_freshLabel hlabel)
  | setReturned hreturned => exact h.updates (updates_of_setReturned hreturned)
  | emit hadvances => exact hadvances.sound h

theorem Sound.after {s : Session} (h : s.context.Sound) (op : Operation) :
    (op.after s).context.Sound := by
  obtain ⟨records, -, hstep⟩ := op.step_after s
  exact h.step hstep

/-- What one operation preserves is preserved by a run. -/
theorem preserved_afterAll {P : Context → Prop}
    (hstep : ∀ {c op names c'}, P c → Step c op names c' → P c') {s : Session} (h : P s.context)
    (ops : List Operation) : P (Operation.afterAll ops s).context := by
  induction ops generalizing s with
  | nil => exact h
  | cons op ops ih =>
      obtain ⟨records, -, hop⟩ := op.step_after s
      exact ih (hstep h hop)

theorem Sound.afterAll {s : Session} (h : s.context.Sound) (ops : List Operation) :
    (Operation.afterAll ops s).context.Sound := preserved_afterAll .step h ops

theorem Reachable.sound (h : c.Reachable) : c.Sound := by
  obtain ⟨target, ops, rfl⟩ := h
  exact Sound.afterAll (fun _ hstate => by cases hstate) ops

end Context

end MicroC
