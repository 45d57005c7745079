import MicroC.Proofs.Context.Runs
import MicroC.Proofs.Frame.Requests

/-!
What becomes of the current function in a run of operations. It is begun and ended by
one operation each. Of what was handed out in between, only the operation that hands
out registers changes the registers, and only the one that hands out labels changes
the labels. What the scope of the whole program binds stays bound.
-/

namespace MicroC

open RiscV

/-- What an operation inside a function can change about the function. -/
structure CurrentFunction.Proceeds (state : CurrentFunction) (op : Operation)
    (state' : CurrentFunction) : Prop where
  name : state'.name = state.name
  target : state'.frame.target = state.frame.target
  sound : state.frame.Sound → state'.frame.Sound
  registers : op ≠ .scratch →
    state'.scratches = state.scratches ∧ state'.frame.saved = state.frame.saved
  labels : op ≠ .label → state'.labels = state.labels

namespace Operation

def Reply.register? : Reply → Option Reg
  | .register reg => some reg
  | _ => none

def Reply.label? : Reply → Option String
  | .label text => some text
  | _ => none

section

variable {α : Type} (pick : Reply → Option α)

/-- What an operation is given, if `pick` finds it in the reply. -/
def given? (op : Operation) (s : Session) : Option α := (op.reply s).toOption.bind pick

/-- What operations are given, in order. -/
def given (ops : List Operation) (s : Session) : List α :=
  (replies ops s).filterMap fun reply => reply.toOption.bind pick

theorem given_cons (op : Operation) (ops : List Operation) (s : Session) :
    given pick (op :: ops) s = (op.given? pick s).toList ++ given pick ops (op.after s) := by
  rw [given, replies, List.filterMap_cons, given?]
  cases (op.reply s).toOption.bind pick <;> rfl

end

/-- Which replies an operation can give, as far as registers and labels go. -/
def Answers (op : Operation) : Reply → Prop
  | .register _ => op = .scratch
  | .label _ => op = .label
  | _ => True

theorem answers_of_reply {op : Operation} {s : Session} {reply : Reply}
    (h : op.reply s = .ok reply) : op.Answers reply := by
  cases op
  all_goals
    simp only [Operation.reply, Operation.run, Emit.run_bind, Emit.run_map] at h
    repeat' split at h
    all_goals cases h <;> trivial

theorem given?_eq_none {α : Type} {pick : Reply → Option α} {op : Operation}
    (h : ∀ reply, op.Answers reply → pick reply = none) (s : Session) :
    op.given? pick s = none := by
  rw [given?]
  cases hreply : op.reply s with
  | error stop => rfl
  | ok reply => exact h reply (answers_of_reply hreply)

theorem given?_register_of_ne {op : Operation} (hop : op ≠ .scratch) (s : Session) :
    op.given? Reply.register? s = none := by
  refine given?_eq_none (fun reply hreply => ?_) s
  cases reply with
  | register reg => exact absurd hreply hop
  | _ => rfl

theorem given?_label_of_ne {op : Operation} (hop : op ≠ .label) (s : Session) :
    op.given? Reply.label? s = none := by
  refine given?_eq_none (fun reply hreply => ?_) s
  cases reply with
  | label text => exact absurd hreply hop
  | _ => rfl

/-- Every function starts in the same way. -/
theorem function_of_openFunction {name : String} {s : Session}
    (h : (openFunction name).reply s = .ok .done) :
    ((openFunction name).after s).context.function =
      some ⟨name, .empty s.context.target, 0, 0, false⟩ := by
  cases hopen : s.context.openFunction name with
  | error error =>
      simp only [reply, Operation.run, Emit.run_bind, Emit.run_openFunction_error hopen] at h
      cases h
  | ok c =>
      simp only [after, Operation.run, Emit.run_bind, Emit.run_openFunction hopen, Emit.run_pure]
      obtain ⟨-, -, rfl⟩ := Context.openFunction_eq_ok hopen
      rfl

end Operation

namespace Context

/-- What can become of the current function. -/
inductive Turns (c : Context) (op : Operation) (c' : Context) : Prop
  | outside (h : c.function = none) (h' : c'.function = none)
  | opened {name : String} (hop : op = .openFunction name) (h : c.openFunction name = .ok c')
  | closed (hop : op = .closeFunction) (h' : c'.function = none)
  | inside {state state' : CurrentFunction} (h : c.function = some state)
      (h' : c'.function = some state') (hproceeds : state.Proceeds op state')

variable {c c' : Context} {op : Operation} {names : List String}

theorem current_of_function {state : CurrentFunction} (h : c.function = some state) :
    c.current = .ok state := by
  rw [current, h]

theorem turns_of_function_eq (h : c'.function = c.function) : c.Turns op c' := by
  cases hfunction : c.function with
  | none => exact .outside hfunction (h.trans hfunction)
  | some state =>
      exact .inside hfunction (h.trans hfunction) ⟨rfl, rfl, id, fun _ => ⟨rfl, rfl⟩, fun _ => rfl⟩

theorem turns_of_reserveSlot {size : UInt32} {offset : Int32} {c₁ : Context}
    (h : c.reserveSlot size = .ok (offset, c₁)) (h' : c'.function = c₁.function) :
    c.Turns op c' := by
  obtain ⟨state, frame, hstate, hframe, rfl⟩ := reserveSlot_eq_ok h
  refine .inside hstate h' ⟨rfl, ?_, fun hsound => hsound.reserve hframe, fun _ => ⟨rfl, ?_⟩,
    fun _ => rfl⟩
  all_goals
    obtain ⟨locals, rfl, -, -⟩ := Frame.reserve_eq_ok hframe
    rfl

theorem turns_of_takeScratch {reg : Reg} (h : c.takeScratch = .ok (reg, c')) :
    c.Turns .scratch c' := by
  obtain ⟨state, frame, hstate, rfl | hframe, rfl⟩ := takeScratch_eq_ok h
  · exact .inside hstate rfl ⟨rfl, rfl, id, fun hop => absurd rfl hop, fun _ => rfl⟩
  · exact .inside hstate rfl ⟨rfl, (Frame.locals_of_preserve hframe).2,
      fun hsound => hsound.preserve hframe, fun hop => absurd rfl hop, fun _ => rfl⟩

theorem turns_of_freshLabel {text : String} (h : c.freshLabel = .ok (text, c')) :
    c.Turns .label c' := by
  obtain ⟨state, labels, hstate, rfl⟩ := freshLabel_eq_ok h
  exact .inside hstate rfl ⟨rfl, rfl, id, fun _ => ⟨rfl, rfl⟩, fun hop => absurd rfl hop⟩

theorem turns_of_finished (h : c'.function = c.finished.function) : c.Turns op c' := by
  rw [finished] at h
  cases hfunction : c.function with
  | none =>
      rw [hfunction] at h
      exact .outside hfunction h
  | some state =>
      rw [hfunction] at h
      exact .inside hfunction h ⟨rfl, rfl, id, fun _ => ⟨rfl, rfl⟩, fun _ => rfl⟩

theorem function_of_declare {name : String} {storage : Storage}
    (h : c.declare name storage = .ok c') : c'.function = c.function := by
  obtain ⟨-, rfl⟩ | ⟨scope, outer, -, rfl⟩ := declare_eq_ok h <;> rfl

theorem Step.turns (h : c.Step op names c') : c.Turns op c' := by
  cases h with
  | nothing | enterScope => exact turns_of_function_eq rfl
  | exitScope hexit =>
      obtain ⟨scope, outer, -, rfl⟩ := exitScope_eq_ok hexit
      exact turns_of_function_eq rfl
  | declare hname => exact turns_of_function_eq (function_of_declare hname)
  | openFunction hopen => exact .opened rfl hopen
  | closeFunction => exact .closed rfl rfl
  | slot hslot | unnamedSlot hslot => exact turns_of_reserveSlot hslot rfl
  | namedSlot hslot hname => exact turns_of_reserveSlot hslot (function_of_declare hname)
  | scratch hscratch => exact turns_of_takeScratch hscratch
  | label hlabel => exact turns_of_freshLabel hlabel
  | setReturned hreturned =>
      obtain ⟨state, hstate, rfl⟩ := setReturned_eq_ok hreturned
      exact turns_of_finished (by rw [finished, hstate]; rfl)
  | emit hadvances => exact hadvances.function.elim turns_of_function_eq turns_of_finished

/-! ### What no operation changes -/

/-- The target of a context stays, and so does what its outermost scope binds. -/
structure Keeps (c c' : Context) : Prop where
  target : c'.target = c.target
  globals : ∀ name, (c.globals.find? name).isSome → (c'.globals.find? name).isSome

theorem keeps_of_globals_eq (htarget : c'.target = c.target) (hglobals : c'.globals = c.globals) :
    c.Keeps c' :=
  ⟨htarget, fun _ h => hglobals ▸ h⟩

theorem keeps_of_insert {name : String} {storage : Storage} (htarget : c'.target = c.target)
    (hglobals : c'.globals = c.globals.insert name storage) : c.Keeps c' := by
  refine ⟨htarget, fun other h => ?_⟩
  rw [hglobals, Scope.find?_insert]
  split
  · rfl
  · exact h

theorem keeps_of_declare {name : String} {storage : Storage}
    (h : c.declare name storage = .ok c') : c.Keeps c' := by
  obtain ⟨-, rfl⟩ | ⟨scope, outer, -, rfl⟩ := declare_eq_ok h
  · exact keeps_of_insert rfl rfl
  · exact keeps_of_globals_eq rfl rfl

theorem Updates.keeps (h : c.Updates c') : c.Keeps c' := by
  obtain ⟨state, state', -, rfl, -⟩ := h
  exact keeps_of_globals_eq rfl rfl

theorem Keeps.trans {c'' : Context} (h : c.Keeps c') (h' : c'.Keeps c'') : c.Keeps c'' :=
  ⟨h'.target.trans h.target, fun name hname => h'.globals name (h.globals name hname)⟩

theorem Advances.keeps (h : c.Advances names c') : c.Keeps c' := by
  refine ⟨h.target, fun name hname => ?_⟩
  rw [h.globals.find? name]
  split
  · rfl
  · exact hname

theorem Step.keeps (h : c.Step op names c') : c.Keeps c' := by
  cases h with
  | nothing | enterScope | closeFunction => exact keeps_of_globals_eq rfl rfl
  | exitScope hexit =>
      obtain ⟨scope, outer, -, rfl⟩ := exitScope_eq_ok hexit
      exact keeps_of_globals_eq rfl rfl
  | declare hname => exact keeps_of_declare hname
  | openFunction hopen =>
      obtain ⟨-, -, rfl⟩ := openFunction_eq_ok hopen
      exact keeps_of_insert rfl rfl
  | slot hslot | unnamedSlot hslot => exact (updates_of_reserveSlot hslot).keeps
  | namedSlot hslot hname =>
      exact (updates_of_reserveSlot hslot).keeps.trans (keeps_of_declare hname)
  | scratch hscratch => exact (updates_of_takeScratch hscratch).keeps
  | label hlabel => exact (updates_of_freshLabel hlabel).keeps
  | setReturned hreturned => exact (updates_of_setReturned hreturned).keeps
  | emit hadvances => exact hadvances.keeps

/-- The frame of a function is one for the target of the context. -/
theorem Reachable.target_frame (h : c.Reachable) {state : CurrentFunction}
    (hstate : c.function = some state) : state.frame.target = c.target := by
  obtain ⟨target, ops, rfl⟩ := h
  revert state
  refine preserved_afterAll
    (P := fun c => ∀ {state}, c.function = some state → state.frame.target = c.target)
    (fun {c op names c'} hc hstep state' hstate' => ?_) (fun hstate => by cases hstate) ops
  rw [hstep.keeps.target]
  cases hstep.turns with
  | outside _ h' | closed _ h' => cases h'.symm.trans hstate'
  | opened _ hopen =>
      obtain ⟨-, -, rfl⟩ := openFunction_eq_ok hopen
      cases hstate'
      rfl
  | inside h h' hproceeds =>
      obtain rfl := Option.some.inj (h'.symm.trans hstate')
      exact hproceeds.target.trans (hc h)

end Context

end MicroC
