import Mathlib
import MicroC.Emission.Basic

/-!
What each step of emission does to a session. The steps that write are
described for streams that take whatever is written to them.
-/

namespace MicroC

open RiscV
open Journal (Record)

/-- The text of a list of instructions, one on each line. -/
def RiscV.listing : List Instr → String
  | [] => ""
  | i :: rest => i.line ++ listing rest

theorem RiscV.listing_singleton (i : Instr) : listing [i] = i.line := String.append_empty

@[simp] theorem RiscV.listing_append (code code' : List Instr) :
    listing (code ++ code') = listing code ++ listing code' := by
  induction code with
  | nil => simp [listing]
  | cons i code ih => simp [listing, ih, String.append_assoc]

namespace Session

/-- The session after `text` was written. -/
def wrote (s : Session) (text : String) : Session :=
  { s with sink := { s.sink with written := s.sink.written ++ text.toUTF8 } }

@[simp] theorem wrote_room (s : Session) (text : String) :
    (s.wrote text).sink.room = s.sink.room := rfl

@[simp] theorem wrote_wrote (s : Session) (text text' : String) :
    (s.wrote text).wrote text' = s.wrote (text ++ text') := by
  simp [wrote, String.toByteArray_append, ByteArray.append_assoc]

@[simp] theorem wrote_empty (s : Session) : s.wrote "" = s := by
  simp [wrote]

theorem sink_wrote {s s' : Session} {text : String} (h : s'.sink = (s.wrote text).sink)
    (text' : String) : (s'.wrote text').sink = (s.wrote (text ++ text')).sink := by
  rw [← wrote_wrote]
  simp only [wrote, h]

end Session

namespace Emit

/-- What a step gives and the session that it leaves. -/
def run {α : Type} (step : EmitM α) (s : Session) : Except (Halt EmitError) α × Session :=
  step s

theorem run_bind {α β : Type} (x : EmitM α) (f : α → EmitM β) (s : Session) :
    run (x >>= f) s =
      match run x s with
      | (.ok a, s') => run (f a) s'
      | (.error stop, s') => (.error stop, s') := by
  simp only [run, bind, ExceptT.bind, ExceptT.mk, StateT.bind, Id]
  rcases x s with ⟨result, s'⟩
  cases result <;> rfl

theorem run_bind_eq_ok {α β : Type} {x : EmitM α} {f : α → EmitM β} {b : β} {s s' : Session} :
    run (x >>= f) s = (.ok b, s') ↔
      ∃ a s₁, run x s = (.ok a, s₁) ∧ run (f a) s₁ = (.ok b, s') := by
  rw [run_bind]
  rcases run x s with ⟨result, s₁⟩
  cases result with
  | error stop => simp
  | ok a =>
      constructor
      · exact fun h => ⟨a, s₁, rfl, h⟩
      · rintro ⟨a', s₂, heq, h⟩
        cases heq
        exact h

@[simp] theorem run_pure {α : Type} (a : α) (s : Session) :
    run (pure a : EmitM α) s = (.ok a, s) := rfl

theorem run_map {α β : Type} (f : α → β) (x : EmitM α) (s : Session) :
    run (f <$> x) s =
      match run x s with
      | (.ok a, s') => (.ok (f a), s')
      | (.error stop, s') => (.error stop, s') := run_bind x (fun a => pure (f a)) s

@[simp] theorem run_context (s : Session) : run context s = (.ok s.context, s) := rfl

@[simp] theorem run_setContext (c : Context) (s : Session) :
    run (setContext c) s = (.ok (), { s with context := c }) := rfl

@[simp] theorem run_note (record : Record) (s : Session) :
    run (note record) s = (.ok (), { s with journal := record :: s.journal }) := rfl

@[simp] theorem run_fail {α : Type} (error : EmitError) (s : Session) :
    run (fail error : EmitM α) s = (.error (.failure error), s) := rfl

@[simp] theorem run_contract_ok {α : Type} (a : α) (s : Session) :
    run (contract (.ok a)) s = (.ok a, s) := rfl

@[simp] theorem run_permitted_ok {α : Type} (a : α) (s : Session) :
    run (permitted (.ok a)) s = (.ok a, s) := rfl

@[simp] theorem run_permitted_error {α : Type} (error : EmitError) (s : Session) :
    run (permitted (.error error : Except EmitError α)) s = (.error (.failure error), s) := rfl

theorem run_write_eq (bytes : ByteArray) (s : Session) :
    run (write bytes) s =
      run (permitted (s.sink.write bytes).1) { s with sink := (s.sink.write bytes).2 } := rfl

theorem run_write {s : Session} (h : s.sink.room = none) (bytes : ByteArray) :
    run (write bytes) s =
      (.ok (), { s with sink := { s.sink with written := s.sink.written ++ bytes } }) := by
  have hwrite : s.sink.write bytes =
      (.ok (), { s.sink with written := s.sink.written ++ bytes }) := by
    simp only [Sink.write, h]
  rw [run_write_eq, hwrite, run_permitted_ok]

theorem run_instruction {s : Session} (h : s.sink.room = none) (i : Instr) :
    run (instruction i) s = (.ok (), s.wrote i.line) := run_write h _

theorem run_instructions {s : Session} (h : s.sink.room = none) (code : List Instr) :
    run (instructions code) s = (.ok (), s.wrote (listing code)) := by
  induction code generalizing s with
  | nil => simp [instructions, listing]
  | cons i code ih =>
      have hroom : (s.wrote i.line).sink.room = none := h
      rw [instructions, run_bind, run_instruction h]
      simp only [ih hroom, Session.wrote_wrote, listing]

theorem run_onto (sink : Sink) (step : EmitM Unit) (s : Session) :
    run (onto sink step) s =
      match run step { s with sink } with
      | (.ok (), s') => (.ok (none, s'.sink.written), { s' with sink := s.sink })
      | (.error (.failure error), s') =>
          (.ok (some error, s'.sink.written), { s' with sink := s.sink })
      | (.error (.breach breach), s') => (.error (.breach breach), { s' with sink := s.sink }) := by
  change onto sink step s = _
  simp only [onto, run]
  rcases step { s with sink := sink } with ⟨result, s'⟩
  rcases result with (_ | _) | _ <;> rfl

end Emit

namespace Context

/-- The context once the current function has returned. -/
def finished (c : Context) : Context :=
  { c with function := c.function.map fun state => { state with returned := true } }

variable {c : Context} {state : CurrentFunction}

theorem currentFrame_of_function (h : c.function = some state) :
    c.currentFrame = .ok state.frame := by
  rw [currentFrame, current, h]
  rfl

theorem setReturned_of_function (h : c.function = some state) :
    c.setReturned = .ok c.finished := by
  rw [setReturned, current, h, finished, h]
  rfl

theorem returned_of_function (h : c.function = some state) : c.returned = state.returned := by
  rw [returned, h]

theorem returned_of_outside (h : c.function = none) : c.returned = false := by
  rw [returned, h]

/-- The context at the beginning of the function `name`. -/
def opened (c : Context) (name : String) : Context :=
  { c with
    globals := c.globals.insert name (.function name)
    inner := .empty :: c.inner
    function := some ⟨name, .empty c.target, 0, 0, false⟩ }

/-- The context after the current function, where the scopes `outer` are left. -/
def closed (c : Context) (outer : List Scope) : Context :=
  { c with inner := outer, function := none }

theorem openFunction_eq_opened {name : String} (hfunction : c.function = none)
    (hname : c.globals.find? name = none) : c.openFunction name = .ok (c.opened name) := by
  simp only [openFunction, hfunction, hname]
  rfl

/-- A function is begun outside any other, under a name that the program does
not bind. -/
theorem openFunction_eq_ok {c' : Context} {name : String} (h : c.openFunction name = .ok c') :
    c.function = none ∧ c.globals.find? name = none ∧ c' = c.opened name := by
  rw [openFunction] at h
  split at h
  · cases h
  · rename_i hfunction
    split at h
    · cases h
    · rename_i hname
      cases h
      exact ⟨hfunction, Option.not_isSome_iff_eq_none.mp hname, rfl⟩

theorem openFunction_of_function (h : c.function = some state) (name : String) :
    c.openFunction name = .error (.unsupported (.nestedFunction name state.name)) := by
  simp only [openFunction, h]

theorem openFunction_of_bound {name : String} {storage : Storage} (hfunction : c.function = none)
    (hname : c.globals.find? name = some storage) :
    c.openFunction name = .error (.redefinition name) := by
  simp only [openFunction, hfunction, hname]
  rfl

end Context

/-- The session after the current function returned with `code`. -/
def Session.left (s : Session) (code : List Instr) : Session :=
  ⟨s.context.finished, (s.wrote (listing code)).sink, s.journal⟩

/-- The session after the current function, where the scopes `outer` are left. -/
def Session.closed (s : Session) (state : CurrentFunction) (outer : List Scope) (total : UInt32) :
    Session where
  context := s.context.closed outer
  sink := s.sink
  journal := .functionEnded state.name total state.frame.locals state.frame.saved ::
    .scopeLeft (outer.length + 1) :: s.journal

namespace Emit

variable {s : Session} {state : CurrentFunction}

theorem run_frame (h : s.context.function = some state) : run frame s = (.ok state.frame, s) := by
  simp only [frame, run_bind, run_context, Context.currentFrame_of_function h, run_contract_ok]

theorem run_setReturned (h : s.context.function = some state) :
    run setReturned s = (.ok (), { s with context := s.context.finished }) := by
  simp only [setReturned, run_bind, run_context, Context.setReturned_of_function h,
    run_contract_ok, run_setContext]

theorem run_requireReachable_of_not_returned (h : s.context.returned = false) :
    run requireReachable s = (.ok (), s) := by
  simp only [requireReachable, run_bind, run_context, Context.requireReachable, h,
    Bool.false_eq_true, if_false, run_permitted_ok]

theorem run_leave {code : List Instr} (h : s.context.function = some state)
    (hroom : s.sink.room = none) (hcode : state.frame.epilogue = .ok code) :
    run leave s = (.ok (), s.left code) := by
  have hwrote : (s.wrote (listing code)).context.function = some state := h
  simp only [leave, run_bind, run_frame h, hcode, run_contract_ok, run_instructions hroom,
    run_setReturned hwrote]
  rfl

theorem run_openFunction {c : Context} {name : String} (h : s.context.openFunction name = .ok c) :
    run (openFunction name) s =
      (.ok (), { s with
        context := c
        journal := .functionBegun name :: .scopeEntered c.depth :: s.journal }) := by
  simp only [openFunction, run_bind, run_context, h, run_permitted_ok, run_setContext, run_note]

theorem run_openFunction_error {error : EmitError} {name : String}
    (h : s.context.openFunction name = .error error) :
    run (openFunction name) s = (.error (.failure error), s) := by
  simp only [openFunction, run_bind, run_context, h, run_permitted_error]

theorem run_closeFunction {scope : Scope} {outer : List Scope} {total : UInt32}
    (h : s.context.function = some state) (hinner : s.context.inner = scope :: outer)
    (htotal : state.frame.total = .ok total) :
    run closeFunction s = (.ok state.frame, s.closed state outer total) := by
  simp only [closeFunction, run_bind, run_context, h, run_setContext, exitScope, Context.exitScope,
    hinner, run_contract_ok, run_note, htotal, run_pure, Context.depth]
  rfl

/-! ### Functions -/

/-- What is emitted between entering and leaving a function. -/
def inner (body : Option Node) : EmitM Unit := do
  Node.emitOption body
  if !(← context).returned then
    leave

theorem emit_function (type : TypeSpecifier) (name : String) (body : Option Node) :
    Node.emit (.function type name body) = (do
      openFunction name
      let (error, code) ← onto .unlimited (inner body)
      let frame ← closeFunction
      if let some error := error then
        fail error
      note (.functionEmitted name type (← contract frame.total))
      instruction .code
      instruction (.global name)
      instruction (.label name)
      instructions (← contract frame.prologue)
      write code) := by
  rw [Node.emit]
  rfl

variable {s' : Session} {c : Context} {type : TypeSpecifier} {name : String} {body : Option Node}
  {scope : Scope} {outer : List Scope} {total : UInt32}

/-- The session in which the body of a function is emitted. -/
def opening (s : Session) (c : Context) (name : String) : Session :=
  ⟨c, .unlimited, .functionBegun name :: .scopeEntered c.depth :: s.journal⟩

/-- A function whose body fails is closed and leaves nothing on the stream. -/
theorem run_emit_function_error {error : EmitError} (hopen : s.context.openFunction name = .ok c)
    (hinner : run (inner body) (opening s c name) = (.error (.failure error), s'))
    (hstate : s'.context.function = some state) (hscopes : s'.context.inner = scope :: outer)
    (htotal : state.frame.total = .ok total) :
    ∃ journal, run (Node.emit (.function type name body)) s =
      (.error (.failure error), ⟨s'.context.closed outer, s.sink, journal⟩) := by
  have honto : run (onto .unlimited (inner body)) { s with
      context := c, journal := .functionBegun name :: .scopeEntered c.depth :: s.journal } =
      (.ok (some error, s'.sink.written), { s' with sink := s.sink }) := by
    rw [run_onto, ← opening, hinner]
  have hclose := run_closeFunction (s := { s' with sink := s.sink }) hstate hscopes htotal
  refine ⟨(s'.closed state outer total).journal, ?_⟩
  simp only [emit_function, run_bind, run_openFunction hopen, honto, hclose, run_fail]
  rfl

/-- A function whose body succeeds is written with the frame that the body
leaves. -/
theorem run_emit_function_ok {prologue : List Instr} (hroom : s.sink.room = none)
    (hopen : s.context.openFunction name = .ok c)
    (hinner : run (inner body) (opening s c name) = (.ok (), s'))
    (hstate : s'.context.function = some state) (hscopes : s'.context.inner = scope :: outer)
    (htotal : state.frame.total = .ok total) (hprologue : state.frame.prologue = .ok prologue) :
    ∃ journal, run (Node.emit (.function type name body)) s =
      (.ok (), ⟨s'.context.closed outer,
        ⟨s.sink.written ++ (listing ([.code, .global name, .label name] ++ prologue)).toUTF8 ++
          s'.sink.written, none⟩, journal⟩) := by
  have honto : run (onto .unlimited (inner body)) { s with
      context := c, journal := .functionBegun name :: .scopeEntered c.depth :: s.journal } =
      (.ok (none, s'.sink.written), { s' with sink := s.sink }) := by
    rw [run_onto, ← opening, hinner]
  have hclose := run_closeFunction (s := { s' with sink := s.sink }) hstate hscopes htotal
  refine ⟨.functionEmitted name type total :: (s'.closed state outer total).journal, ?_⟩
  simp only [emit_function, run_bind, run_openFunction hopen, honto, hclose, Session.closed, htotal,
    hprologue, run_contract_ok, run_note, run_instruction, run_instructions, run_write, hroom,
    Session.wrote_room, Session.wrote_wrote]
  simp [Session.wrote, listing, hroom, ByteArray.append_assoc]

end Emit

end MicroC
