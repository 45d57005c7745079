import MicroC.Proofs.Emission.Run
import MicroC.Proofs.Grammar.Reading

/-!
What one function of a program is compiled into. It is refused for its own
name, for the value of its first return statement, or for a statement after
that one. Otherwise its code is a frame of sixteen bytes around at most one
instruction.
-/

namespace MicroC

open RiscV
open Emit

namespace Grammar

/-- Whether the code of a function can return a value. -/
def Expression.Returnable : Expression → Prop
  | .literal value => value.toInt ≤ 2 ^ 31 - 1
  | .named _ => False

namespace Definition

/-- A function that can be compiled, its name aside: it returns at most once,
and then nothing or a constant of 32 bits. -/
structure Supported (d : Definition) : Prop where
  once : d.returns.length ≤ 1
  value : ∀ e, some e ∈ d.returns → e.Returnable

/-- What is wrong with a returned value where the functions `known` are bound. -/
def valueFault (known : List String) : Option Expression → Option EmitError
  | none => none
  | some (.named name) =>
      if name ∈ known then some (.unsupported (.returnDesignator name)) else some (.unbound name)
  | some (.literal value) =>
      if value.toInt ≤ 2 ^ 31 - 1 then none else some (.unsupported (.constantRange value))

def returnsFault (known : List String) : List (Option Expression) → Option EmitError
  | [] => none
  | value :: later =>
      match valueFault known value with
      | some error => some error
      | none => if later = [] then none else some (.unsupported .afterReturn)

/-- What is wrong with a function that the functions `earlier` precede. -/
def fault (earlier : List String) (d : Definition) : Option EmitError :=
  if d.name ∈ earlier then some (.redefinition d.name)
  else returnsFault (d.name :: earlier) d.returns

/-- Puts the returned value in its place. -/
def loadsValue : List (Option Expression) → List Instr
  | some (.literal value) :: _ => [.li .a0 value]
  | _ => []

/-- Where the caller's `s0` is kept, as an offset from `sp`. -/
def linkOffset : Target → Int32
  | .rv32 => 12
  | .rv64 => 8

def enters (target : Target) : List Instr :=
  [.addi .sp .sp (-16), .store target.registerWidth .s0 (linkOffset target) .sp,
    .addi .s0 .sp 16]

def leaves (target : Target) : List Instr :=
  [.load target.registerWidth .s0 (linkOffset target) .sp, .addi .sp .sp 16, .ret]

/-- The code of a function from its label on. -/
def routine (target : Target) (d : Definition) : List Instr :=
  enters target ++ loadsValue d.returns ++ leaves target

def code (target : Target) (d : Definition) : List Instr :=
  [.code, .global d.name, .label d.name] ++ d.routine target

theorem valueFault_eq_none (known : List String) (value : Option Expression) :
    valueFault known value = none ↔ ∀ e, value = some e → e.Returnable := by
  rcases value with - | value | name
  · simp [valueFault]
  · simp [valueFault, Expression.Returnable]
  · by_cases h : name ∈ known <;> simp [valueFault, Expression.Returnable, h]

theorem returnsFault_eq_none (known : List String) (returns : List (Option Expression)) :
    returnsFault known returns = none ↔
      returns.length ≤ 1 ∧ ∀ e, some e ∈ returns → e.Returnable := by
  cases returns with
  | nil => simp [returnsFault]
  | cons value later =>
      have hfirst := valueFault_eq_none known value
      rw [returnsFault]
      cases hfault : valueFault known value with
      | some error =>
          simp only [hfault, reduceCtorEq, false_iff] at hfirst ⊢
          rintro ⟨-, hvalue⟩
          exact hfirst fun e he => hvalue e (by simp [he])
      | none =>
          have hvalue := hfirst.mp hfault
          by_cases hlater : later = []
          · subst hlater
            simpa using fun e he => hvalue e he.symm
          · simp [hlater, List.length_eq_zero_iff]

theorem fault_eq_none {earlier : List String} {d : Definition} :
    d.fault earlier = none ↔ d.name ∉ earlier ∧ d.Supported := by
  have hsupported : d.Supported ↔
      d.returns.length ≤ 1 ∧ ∀ e, some e ∈ d.returns → e.Returnable :=
    ⟨fun h => ⟨h.once, h.value⟩, fun h => ⟨h.1, h.2⟩⟩
  rw [fault, hsupported, ← returnsFault_eq_none (d.name :: earlier)]
  by_cases hname : d.name ∈ earlier <;> simp [hname]

theorem prologue_empty (target : Target) : (Frame.empty target).prologue = .ok (enters target) := by
  cases target <;> rfl

theorem epilogue_empty (target : Target) : (Frame.empty target).epilogue = .ok (leaves target) := by
  cases target <;> rfl

theorem total_empty (target : Target) : (Frame.empty target).total = .ok 16 := by
  cases target <;> rfl

end Definition

end Grammar

open Grammar Definition

/-- The functions `names` are bound in a scope, and nothing else is. -/
def Scope.Binds (g : Scope) (names : List String) : Prop :=
  ∀ name, g.find? name = if name ∈ names then some (.function name) else none

namespace Context

/-- Inside a function whose frame holds nothing, where the functions `known`
are bound. -/
structure Within (c : Context) (target : Target) (known : List String) (returned : Bool) :
    Prop where
  function : ∃ state, c.function = some state ∧ state.frame = .empty target ∧
    state.returned = returned
  inner : c.inner = [.empty]
  globals : c.globals.Binds known
  target : c.target = target

/-- Outside any function, where the functions `names` are bound. -/
structure Between (c : Context) (target : Target) (names : List String) : Prop where
  function : c.function = none
  inner : c.inner = []
  globals : c.globals.Binds names
  target : c.target = target

variable {c : Context} {target : Target} {known : List String} {returned : Bool}

theorem Within.finished (h : c.Within target known returned) :
    c.finished.Within target known true := by
  obtain ⟨state, hstate, hframe, -⟩ := h.function
  exact ⟨⟨{ state with returned := true }, by simp [Context.finished, hstate], hframe, rfl⟩,
    h.inner, h.globals, h.target⟩

theorem Within.resolve (h : c.Within target known returned) (name : String) :
    c.resolve name = if name ∈ known then .ok (.function name) else .error (.unbound name) := by
  rw [Context.resolve, h.inner]
  simp only [List.findSome?_cons, Scope.find?_empty, List.findSome?_nil, h.globals name]
  by_cases hname : name ∈ known <;> simp [hname]

theorem Within.returned_eq (h : c.Within target known returned) : c.returned = returned := by
  obtain ⟨state, hstate, -, hreturned⟩ := h.function
  rw [returned_of_function hstate, hreturned]

theorem Within.insideFunction (h : c.Within target known returned) : c.insideFunction = true := by
  obtain ⟨state, hstate, -, -⟩ := h.function
  rw [Context.insideFunction, hstate]
  rfl

theorem Within.closed (h : c.Within target known returned) : (c.closed []).Between target known :=
  ⟨rfl, rfl, h.globals, h.target⟩

variable {names : List String} {name : String}

theorem Between.opened (h : c.Between target names) :
    (c.opened name).Within target (name :: names) false where
  function := ⟨_, rfl, congrArg Frame.empty h.target, rfl⟩
  inner := congrArg (Scope.empty :: ·) h.inner
  globals := by
    intro other
    rw [Context.opened, Scope.find?_insert, h.globals other]
    by_cases hother : other = name <;> simp [hother]
  target := h.target

theorem Between.openFunction (h : c.Between target names) (hname : name ∉ names) :
    c.openFunction name = .ok (c.opened name) :=
  openFunction_eq_opened h.function (by rw [h.globals, if_neg hname])

theorem Between.openFunction_of_mem (h : c.Between target names) (hname : name ∈ names) :
    c.openFunction name = .error (.redefinition name) :=
  openFunction_of_bound h.function (by rw [h.globals, if_pos hname])

/-- Only which names are bound counts. -/
theorem Between.congr {names' : List String} (h : c.Between target names)
    (hnames : ∀ name, name ∈ names ↔ name ∈ names') : c.Between target names' :=
  ⟨h.function, h.inner, fun name => by simp only [h.globals name, hnames name], h.target⟩

end Context

namespace Emit

variable {s : Session} {target : Target} {known : List String} {returned : Bool}

theorem run_leave_within (h : s.context.Within target known returned)
    (hroom : s.sink.room = none) :
    run leave s = (.ok (), s.left (leaves target)) := by
  obtain ⟨state, hstate, hframe, -⟩ := h.function
  exact run_leave hstate hroom (hframe ▸ epilogue_empty target)

theorem run_returnValue {e : Expression} (h : s.context.Within target known returned)
    (hroom : s.sink.room = none) (he : ∀ kind ∈ e.kinds, kind.Spellable) :
    run (returnValue e.tree) s =
      match valueFault known (some e) with
      | some error => (.error (.failure error), s)
      | none => (.ok (), s.wrote (listing (loadsValue [some e]))) := by
  cases e with
  | literal value =>
      have hnonneg : 0 ≤ value.toInt := he _ List.mem_cons_self
      have hmin : Int32.minValue.toInt = -2 ^ 31 := rfl
      have hmax : Int32.maxValue.toInt = 2 ^ 31 - 1 := rfl
      simp only [Expression.tree, returnValue, constant, run_bind, run_context, h.insideFunction,
        valueFault, Bool.not_true, Bool.false_eq_true, if_false]
      by_cases hfits : value.toInt ≤ 2 ^ 31 - 1
      · have hin : ¬(value.toInt < Int32.minValue.toInt ∨ Int32.maxValue.toInt < value.toInt) := by
          omega
        rw [if_neg hin, if_pos hfits, run_instruction hroom]
        simp [loadsValue, listing]
      · have hout : value.toInt < Int32.minValue.toInt ∨ Int32.maxValue.toInt < value.toInt := by
          omega
        rw [if_pos hout, if_neg hfits, run_bind, run_fail]
  | named name =>
      simp only [Expression.tree, returnValue, named, resolve, run_bind, run_context,
        h.resolve name, valueFault]
      by_cases hname : name ∈ known <;> simp [hname]

theorem run_returnStatement {value : Option Expression}
    (h : s.context.Within target known returned) (hroom : s.sink.room = none)
    (hvalue : ∀ kind ∈ Statement.valueKinds value, kind.Spellable) :
    run (returnStatement (value.map Expression.tree)) s =
      match valueFault known value with
      | some error => (.error (.failure error), s)
      | none => (.ok (), s.left (loadsValue [value] ++ leaves target)) := by
  simp only [returnStatement, run_bind, run_context, h.insideFunction, Bool.not_true,
    Bool.false_eq_true, if_false]
  cases value with
  | none => simp [run_leave_within h hroom, valueFault, loadsValue]
  | some e =>
      have he : ∀ kind ∈ e.kinds, kind.Spellable := fun kind hkind =>
        hvalue kind (by simp [Statement.valueKinds, hkind])
      have hwrote : (s.wrote (listing (loadsValue [some e]))).context.Within target known
          returned := h
      simp only [Option.map_some, run_bind, run_returnValue h hroom he]
      cases hfault : valueFault known (some e) with
      | some error => rfl
      | none =>
          dsimp only
          rw [run_leave_within hwrote hroom, Session.left, Session.left, Session.wrote_wrote,
            listing_append]
          rfl

theorem run_requireReachable (h : s.context.Within target known false) :
    run requireReachable s = (.ok (), s) := run_requireReachable_of_not_returned h.returned_eq

theorem run_requireReachable_returned (h : s.context.Within target known true) :
    run requireReachable s = (.error (.failure (.unsupported .afterReturn)), s) := by
  simp only [requireReachable, run_bind, run_context, Context.requireReachable, h.returned_eq,
    if_true, run_permitted_error]

/-- After the return, a statement that is not empty is one too many. -/
theorem run_emitEntries_returned (body : List Statement)
    (h : s.context.Within target known true) :
    run (Node.emitEntries (body.map Statement.tree)) s =
      (if body.filterMap Statement.returned? = [] then .ok ()
        else .error (.failure (.unsupported .afterReturn)), s) := by
  induction body with
  | nil => rfl
  | cons statement body ih =>
      cases statement with
      | empty => exact ih
      | ret value =>
          simp only [List.map_cons, Statement.tree, Node.emitEntries, run_bind,
            run_requireReachable_returned h]
          rfl

/-- The first return statement decides, and then whether another one follows. -/
theorem run_emitEntries {body : List Statement} (h : s.context.Within target known false)
    (hroom : s.sink.room = none)
    (hbody : ∀ kind ∈ body.flatMap Statement.kinds, kind.Spellable) :
    run (Node.emitEntries (body.map Statement.tree)) s =
      match body.filterMap Statement.returned? with
      | [] => (.ok (), s)
      | value :: later =>
          match valueFault known value with
          | some error => (.error (.failure error), s)
          | none =>
              (if later = [] then .ok () else .error (.failure (.unsupported .afterReturn)),
                s.left (loadsValue [value] ++ leaves target)) := by
  induction body with
  | nil => rfl
  | cons statement body ih =>
      simp only [List.flatMap_cons, List.mem_append] at hbody
      cases statement with
      | empty => exact ih fun kind hkind => hbody kind (.inr hkind)
      | ret value =>
          have hvalue : ∀ kind ∈ Statement.valueKinds value, kind.Spellable := fun kind hkind =>
            hbody kind (.inl (List.mem_cons_of_mem _ hkind))
          -- From here on the function has returned, and the other lemma takes over.
          have hafter : (s.left (loadsValue [value] ++ leaves target)).context.Within target known
              true := h.finished
          simp only [List.map_cons, Statement.tree, Node.emitEntries, run_bind,
            run_requireReachable h, checkEntry, run_pure, Node.emit,
            run_returnStatement h hroom hvalue, List.filterMap_cons, Statement.returned?]
          cases hfault : valueFault known value with
          | some error => rfl
          | none => exact run_emitEntries_returned body hafter

theorem run_inner_of_supported {d : Definition} (h : s.context.Within target known false)
    (hroom : s.sink.room = none) (hd : ∀ kind ∈ d.kinds, kind.Spellable)
    (hfault : returnsFault known d.returns = none) :
    run (inner (some (blockTree d.body))) s =
      (.ok (), s.left (loadsValue d.returns ++ leaves target)) := by
  have hentries := run_emitEntries h hroom (spellable_body hd)
  rw [← Definition.returns] at hentries
  simp only [inner, blockTree, Node.emitOption, Node.emit, run_bind, hentries]
  cases hreturns : d.returns with
  | nil => simp [h.returned_eq, run_leave_within h hroom, loadsValue]
  | cons value later =>
      have hvalues := (returnsFault_eq_none known _).mp hfault
      rw [hreturns] at hvalues
      have hvalue : valueFault known value = none :=
        (valueFault_eq_none known value).mpr fun e he => hvalues.2 e (by simp [he])
      obtain rfl : later = [] :=
        List.length_eq_zero_iff.mp (Nat.le_zero.mp (by simpa using hvalues.1))
      simp [hvalue, Session.left, h.finished.returned_eq]

theorem run_inner_of_fault {d : Definition} {error : EmitError}
    (h : s.context.Within target known false)
    (hroom : s.sink.room = none) (hd : ∀ kind ∈ d.kinds, kind.Spellable)
    (hfault : returnsFault known d.returns = some error) :
    ∃ s' returned, run (inner (some (blockTree d.body))) s = (.error (.failure error), s') ∧
      s'.context.Within target known returned := by
  have hentries := run_emitEntries h hroom (spellable_body hd)
  rw [← Definition.returns] at hentries
  simp only [inner, blockTree, Node.emitOption, Node.emit, run_bind, hentries]
  cases hreturns : d.returns with
  | nil => simp [hreturns, returnsFault] at hfault
  | cons value later =>
      simp only [hreturns, returnsFault] at hfault
      cases hvalue : valueFault known value with
      | some error' =>
          simp only [hvalue, Option.some.injEq] at hfault
          exact ⟨s, false, by simp [hvalue, hfault], h⟩
      | none =>
          simp only [hvalue] at hfault
          split at hfault
          · cases hfault
          · rename_i hlater
            cases hfault
            exact ⟨s.left (loadsValue [value] ++ leaves target), true, by simp [hvalue, hlater],
              h.finished⟩

/-! ### The whole function -/

theorem run_emit_of_fault {d : Definition} {earlier : List String} {error : EmitError}
    (h : s.context.Between target earlier) (hd : ∀ kind ∈ d.kinds, kind.Spellable)
    (hfault : d.fault earlier = some error) :
    ∃ s', run d.tree.emit s = (.error (.failure error), s') := by
  rw [Definition.fault] at hfault
  split at hfault
  · rename_i hname
    cases hfault
    have hopen := run_openFunction_error (h.openFunction_of_mem hname)
    exact ⟨s, by rw [Definition.tree, emit_function, run_bind, hopen]⟩
  · rename_i hname
    have hopened : (opening s (s.context.opened d.name) d.name).context.Within target
        (d.name :: earlier) false := h.opened
    obtain ⟨s', returned, hinner, hwithin⟩ := run_inner_of_fault hopened rfl hd hfault
    obtain ⟨state, hstate, hframe, -⟩ := hwithin.function
    obtain ⟨journal, hrun⟩ := run_emit_function_error (h.openFunction hname) hinner hstate
      hwithin.inner (hframe ▸ total_empty target)
    exact ⟨_, hrun⟩

theorem run_emit_of_supported {d : Definition} {earlier : List String}
    (h : s.context.Between target earlier) (hroom : s.sink.room = none)
    (hd : ∀ kind ∈ d.kinds, kind.Spellable) (hfault : d.fault earlier = none) :
    ∃ s', run d.tree.emit s = (.ok (), s') ∧ s'.context.Between target (d.name :: earlier) ∧
      s'.sink = (s.wrote (listing (d.code target))).sink := by
  have hname : d.name ∉ earlier := (fault_eq_none.mp hfault).1
  rw [Definition.fault, if_neg hname] at hfault
  have hopened : (opening s (s.context.opened d.name) d.name).context.Within target
      (d.name :: earlier) false := h.opened
  have hinner := run_inner_of_supported hopened rfl hd hfault
  obtain ⟨state, hstate, hframe, -⟩ := hopened.finished.function
  obtain ⟨journal, hrun⟩ := run_emit_function_ok hroom (h.openFunction hname) hinner hstate
    hopened.finished.inner (hframe ▸ total_empty target) (hframe ▸ prologue_empty target)
  have hempty : Sink.unlimited.written = ByteArray.empty := rfl
  refine ⟨_, hrun, hopened.finished.closed, ?_⟩
  simp [Session.left, Session.wrote, opening, hroom, hempty, Definition.code, Definition.routine,
    listing, ByteArray.append_assoc]

end Emit

end MicroC
