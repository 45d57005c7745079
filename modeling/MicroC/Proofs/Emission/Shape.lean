import MicroC.Proofs.Emission.Function

/-!
What a function that was emitted looks like, whatever tree its body is. The
statements of a body, at any depth of its lists, leave the stream alone up to
the first return, and nothing is emitted after that one. So the code is the same
frame entered and left around the code of one value. A name or a declarator that
stands in the place of the body is the exception: its text is written as it is.
-/

namespace MicroC

open RiscV
open Emit

/-- The code that puts a value into `a0`, where names mean what they do in a
context. -/
inductive Loads (c : Context) : Option Node → List Instr → Prop
  | nothing : Loads c none []
  | constant {value : Int64} (hmin : -2 ^ 31 ≤ value.toInt) (hmax : value.toInt < 2 ^ 31) :
      Loads c (some (.constant value)) [.li .a0 value]
  | near {name : String} {offset : Int32} (hname : c.resolve name = .ok (.stack offset))
      (hfits : fitsImmediate offset.toInt = true) :
      Loads c (some (.identifier name)) [.load .word .a0 offset .s0]
  | far {name : String} {offset : Int32} (hname : c.resolve name = .ok (.stack offset))
      (hfits : fitsImmediate offset.toInt = false) :
      Loads c (some (.identifier name))
        [.li .t0 offset.toInt64, .add .t0 .s0 .t0, .load .word .a0 0 .t0]
  | register {name : String} {reg : Reg} (hname : c.resolve name = .ok (.register reg)) :
      Loads c (some (.identifier name)) [.mv .a0 reg]

/-- Labels and returns. -/
def RiscV.Instr.isLandmark : Instr → Bool
  | .label _ | .ret => true
  | _ => false

/-- What an instruction adds to `sp`. -/
def RiscV.Instr.stackShift : Instr → Int
  | .addi .sp .sp immediate => immediate.toInt
  | _ => 0

namespace Loads

variable {c : Context} {value : Option Node} {code : List Instr}

theorem no_landmark (h : Loads c value code) : code.filter Instr.isLandmark = [] := by
  cases h <;> rfl

end Loads

namespace Node

mutual

/-- What the return statements of a tree return, in order. A constant by itself
is a value too. -/
def values : Node → List (Option Node)
  | .constant value => [some (.constant value)]
  | .ret expression => [expression]
  | .list entries => entryValues entries
  | .identifier _ | .declarator _ | .function .. => []

def entryValues : List (Option Node) → List (Option Node)
  | [] => []
  | none :: rest => entryValues rest
  | some node :: rest => node.values ++ entryValues rest

end

def bodyValues : Option Node → List (Option Node)
  | none => []
  | some node => node.values

/-- What a body that returns at most once returns. -/
def bodyValue (body : Option Node) : Option Node := (bodyValues body).head?.join

/-- The text that a body leaves on the stream without being a statement. -/
def strayText : Option Node → String
  | some (.identifier name) => name
  | some (.declarator name) => (Instr.label name).line
  | _ => ""

end Node

theorem Session.left_wrote (s : Session) (load leave : List Instr) :
    (s.wrote (listing load)).left leave = s.left (load ++ leave) := by
  rw [Session.left, Session.left, Session.wrote_wrote, listing_append]
  rfl

namespace Emit

variable {s s' : Session} {state : CurrentFunction}

/-! ### Values -/

theorem insideFunction_of_function {c : Context} (h : c.function = some state) :
    c.insideFunction = true := by
  rw [Context.insideFunction, h]
  rfl

theorem loads_of_run_constant {value : Int64} (hstate : s.context.function = some state)
    (hroom : s.sink.room = none) (hrun : run (constant value) s = (.ok (), s')) :
    ∃ load, Loads s.context (some (.constant value)) load ∧ s' = s.wrote (listing load) := by
  have hmin : Int32.minValue.toInt = -2 ^ 31 := rfl
  have hmax : Int32.maxValue.toInt = 2 ^ 31 - 1 := rfl
  simp only [constant, run_bind, run_context, insideFunction_of_function hstate, Bool.not_true,
    Bool.false_eq_true, if_false] at hrun
  split at hrun
  · simp [run_bind] at hrun
  · rename_i hin
    rw [run_instruction hroom] at hrun
    cases hrun
    exact ⟨[.li .a0 value], .constant (by omega) (by omega), by rw [listing_singleton]⟩

theorem loads_of_run_named {name : String} (hroom : s.sink.room = none)
    (hrun : run (named name) s = (.ok (), s')) :
    ∃ load, Loads s.context (some (.identifier name)) load ∧ s' = s.wrote (listing load) := by
  simp only [named, resolve, run_bind, run_context] at hrun
  cases hname : s.context.resolve name with
  | error error => simp [hname] at hrun
  | ok storage =>
      simp only [hname, run_permitted_ok] at hrun
      cases storage with
      | stack offset =>
          dsimp only at hrun
          split at hrun
          · rename_i hfits
            rw [run_instruction hroom] at hrun
            cases hrun
            exact ⟨_, .near hname hfits, by rw [listing_singleton]⟩
          · rename_i hfits
            rw [run_instructions hroom] at hrun
            cases hrun
            exact ⟨_, .far hname (by simpa using hfits), rfl⟩
      | register reg =>
          rw [run_instruction hroom] at hrun
          cases hrun
          exact ⟨_, .register hname, by rw [listing_singleton]⟩
      | function label => simp at hrun

theorem loads_of_run_returnValue {node : Node} (hstate : s.context.function = some state)
    (hroom : s.sink.room = none) (hrun : run (returnValue node) s = (.ok (), s')) :
    ∃ load, Loads s.context (some node) load ∧ s' = s.wrote (listing load) := by
  cases node with
  | constant value => exact loads_of_run_constant hstate hroom hrun
  | identifier name => exact loads_of_run_named hroom hrun
  | ret | declarator | function | list => simp [returnValue] at hrun

theorem loads_of_run_returnStatement {expression : Option Node} {leave : List Instr}
    (hstate : s.context.function = some state) (hroom : s.sink.room = none)
    (hleave : state.frame.epilogue = .ok leave)
    (hrun : run (returnStatement expression) s = (.ok (), s')) :
    ∃ load, Loads s.context expression load ∧ s' = s.left (load ++ leave) := by
  simp only [returnStatement, run_bind, run_context, insideFunction_of_function hstate,
    Bool.not_true, Bool.false_eq_true, if_false] at hrun
  cases expression with
  | none =>
      dsimp only at hrun
      rw [run_leave hstate hroom hleave] at hrun
      cases hrun
      exact ⟨[], .nothing, rfl⟩
  | some node =>
      obtain ⟨_, s₁, hvalue, hrun⟩ := run_bind_eq_ok.mp hrun
      obtain ⟨load, hload, rfl⟩ := loads_of_run_returnValue hstate hroom hvalue
      have hwrote : (s.wrote (listing load)).context.function = some state := hstate
      rw [run_leave hwrote hroom hleave] at hrun
      cases hrun
      exact ⟨load, hload, s.left_wrote load leave⟩

/-! ### Statements -/

/-- What statements do that return `values`: nothing, or they leave the function
once. -/
inductive Leaves (s : Session) (leave : List Instr) : List (Option Node) → Session → Prop
  | nothing : Leaves s leave [] s
  | once {value : Option Node} {load : List Instr} (hload : Loads s.context value load) :
      Leaves s leave [value] (s.left (load ++ leave))

theorem returned_left (h : s.context.function = some state) (code : List Instr) :
    (s.left code).context.returned = true := by
  simp [Session.left, Context.finished, Context.returned, h]

theorem returned_of_run_requireReachable (hrun : run requireReachable s = (.ok (), s')) :
    s.context.returned = false ∧ s' = s := by
  simp only [requireReachable, run_bind, run_context, Context.requireReachable] at hrun
  split at hrun
  · simp at hrun
  · rename_i hreturned
    simp only [run_permitted_ok, Prod.mk.injEq, true_and] at hrun
    exact ⟨by simpa using hreturned, hrun.symm⟩

theorem unmoved_of_run_checkEntry {node : Node} (hrun : run (checkEntry node) s = (.ok (), s')) :
    s' = s := by
  cases node with
  | ret | function | list =>
      simp only [checkEntry, run_pure, Prod.mk.injEq, true_and] at hrun
      exact hrun.symm
  | identifier | constant | declarator =>
      simp only [checkEntry, run_bind, run_context] at hrun
      split at hrun <;> simp at hrun

/-- Once the function has returned, only absent entries may follow. -/
theorem unmoved_of_returned {entries : List (Option Node)} (hreturned : s.context.returned = true)
    (hrun : run (Node.emitEntries entries) s = (.ok (), s')) :
    Node.entryValues entries = [] ∧ s' = s := by
  induction entries with
  | nil =>
      simp only [Node.emitEntries, run_pure, Prod.mk.injEq, true_and] at hrun
      exact ⟨rfl, hrun.symm⟩
  | cons entry rest ih =>
      cases entry with
      | none => exact ih hrun
      | some node =>
          obtain ⟨_, s₁, hreach, -⟩ := run_bind_eq_ok.mp hrun
          have hnot := (returned_of_run_requireReachable hreach).1
          rw [hreturned] at hnot
          cases hnot

mutual

theorem leaves_of_run_emit (node : Node) {leave : List Instr} :
    ∀ {s s' : Session}, s.context.function = some state → s.sink.room = none →
      state.frame.epilogue = .ok leave → run (checkEntry node) s = (.ok (), s) →
      run node.emit s = (.ok (), s') → Leaves s leave node.values s' := by
  intro s s' hstate hroom hleave hcheck hrun
  cases node with
  | ret expression =>
      rw [Node.emit] at hrun
      obtain ⟨load, hload, rfl⟩ := loads_of_run_returnStatement hstate hroom hleave hrun
      rw [Node.values]
      exact .once hload
  | list entries =>
      rw [Node.emit] at hrun
      rw [Node.values]
      exact leaves_of_run_emitEntries entries hstate hroom hleave hrun
  | function type name body =>
      have hopen : s.context.openFunction name =
          .error (.unsupported (.nestedFunction name state.name)) := by
        simp only [Context.openFunction, hstate]
      rw [emit_function, run_bind, run_openFunction_error hopen] at hrun
      cases hrun
  | identifier | constant | declarator =>
      simp [checkEntry, run_bind, insideFunction_of_function hstate] at hcheck

theorem leaves_of_run_emitEntries (entries : List (Option Node)) {leave : List Instr} :
    ∀ {s s' : Session}, s.context.function = some state → s.sink.room = none →
      state.frame.epilogue = .ok leave → run (Node.emitEntries entries) s = (.ok (), s') →
      Leaves s leave (Node.entryValues entries) s' := by
  intro s s' hstate hroom hleave hrun
  cases entries with
  | nil =>
      cases hrun
      exact .nothing
  | cons entry rest =>
      cases entry with
      | none =>
          rw [Node.emitEntries] at hrun
          rw [Node.entryValues]
          exact leaves_of_run_emitEntries rest hstate hroom hleave hrun
      | some node =>
          rw [Node.emitEntries] at hrun
          obtain ⟨_, s₁, hreach, hrun₁⟩ := run_bind_eq_ok.mp hrun
          obtain ⟨-, rfl⟩ := returned_of_run_requireReachable hreach
          obtain ⟨_, s₂, hcheck, hrun₂⟩ := run_bind_eq_ok.mp hrun₁
          obtain rfl := unmoved_of_run_checkEntry hcheck
          obtain ⟨_, s₃, hfirst, hlater⟩ := run_bind_eq_ok.mp hrun₂
          have hnode := leaves_of_run_emit node hstate hroom hleave hcheck hfirst
          rw [Node.entryValues]
          generalize node.values = values at hnode
          cases hnode with
          | nothing => exact leaves_of_run_emitEntries rest hstate hroom hleave hlater
          | once hload =>
              obtain ⟨hvalues, rfl⟩ := unmoved_of_returned (returned_left hstate _) hlater
              rw [hvalues]
              exact .once hload

end

/-! ### The whole function -/

/-- The code that is emitted last, for a body that has not returned. -/
theorem run_leave_of_open {leave : List Instr} (hstate : s.context.function = some state)
    (hreturned : s.context.returned = false) (hroom : s.sink.room = none)
    (hleave : state.frame.epilogue = .ok leave) :
    run (do if !(← context).returned then Emit.leave) s = (.ok (), s.left leave) := by
  simp [run_bind, hreturned, run_leave hstate hroom hleave]

theorem run_leave_of_returned (hreturned : s.context.returned = true) :
    run (do if !(← context).returned then Emit.leave) s = (.ok (), s) := by
  simp [run_bind, hreturned]

theorem loads_of_run_inner {body : Option Node} {leave : List Instr}
    (hstate : s.context.function = some state) (hreturned : state.returned = false)
    (hroom : s.sink.room = none) (hleave : state.frame.epilogue = .ok leave)
    (hrun : run (inner body) s = (.ok (), s')) :
    (Node.bodyValues body).length ≤ 1 ∧ ∃ load, Loads s.context (Node.bodyValue body) load ∧
      s' = (s.wrote (Node.strayText body)).left (load ++ leave) := by
  have hopen : s.context.returned = false := by
    rw [Context.returned_of_function hstate, hreturned]
  obtain ⟨_, s₁, hbody, hlast⟩ := run_bind_eq_ok.mp hrun
  -- A body that has only written something is left by the code after it.
  have hwrote : ∀ {text : String}, s₁ = s.wrote text → s' = (s.wrote text).left leave := by
    rintro text rfl
    rw [run_leave_of_open (s := s.wrote text) hstate hopen hroom hleave] at hlast
    simpa using hlast.symm
  -- Statements have left the function or have done nothing.
  have hleft : ∀ {values : List (Option Node)}, Leaves s leave values s₁ →
      values.length ≤ 1 ∧ ∃ load, Loads s.context values.head?.join load ∧
        s' = (s.wrote "").left (load ++ leave) := by
    intro values h
    cases h with
    | nothing => exact ⟨Nat.zero_le 1, [], .nothing, hwrote s.wrote_empty.symm⟩
    | once hload =>
        rw [run_leave_of_returned (returned_left hstate _)] at hlast
        cases hlast
        exact ⟨Nat.le_refl 1, _, hload, by rw [Session.wrote_empty]⟩
  cases body with
  | none =>
      cases hbody
      exact hleft .nothing
  | some node =>
      rw [Node.emitOption] at hbody
      cases node with
      | identifier name =>
          rw [Node.emit, writeText, run_write hroom] at hbody
          cases hbody
          exact ⟨Nat.zero_le 1, [], .nothing, hwrote rfl⟩
      | declarator name =>
          rw [Node.emit, run_instruction hroom] at hbody
          cases hbody
          exact ⟨Nat.zero_le 1, [], .nothing, hwrote rfl⟩
      | constant value =>
          rw [Node.emit] at hbody
          obtain ⟨load, hload, hs₁⟩ := loads_of_run_constant hstate hroom hbody
          refine ⟨Nat.le_refl 1, load, hload, ?_⟩
          rw [hwrote hs₁, Session.left_wrote, Node.strayText, Session.wrote_empty]
          all_goals simp
      | ret expression =>
          exact hleft (leaves_of_run_emit (.ret expression) hstate hroom hleave rfl hbody)
      | list entries =>
          exact hleft (leaves_of_run_emit (.list entries) hstate hroom hleave rfl hbody)
      | function type name body =>
          exact hleft (leaves_of_run_emit (.function type name body) hstate hroom hleave rfl hbody)

/-- A function is emitted only if its body is. -/
theorem run_inner_of_run_emit {type : TypeSpecifier} {name : String} {body : Option Node}
    (hrun : run (Node.emit (.function type name body)) s = (.ok (), s')) :
    ∃ c s₁, s.context.openFunction name = .ok c ∧
      run (inner body) (opening s c name) = (.ok (), s₁) := by
  rw [emit_function] at hrun
  obtain ⟨_, s₀, hopen, hrun⟩ := run_bind_eq_ok.mp hrun
  cases hc : s.context.openFunction name with
  | error error =>
      rw [run_openFunction_error hc] at hopen
      cases hopen
  | ok c =>
      rw [run_openFunction hc] at hopen
      cases hopen
      obtain ⟨⟨error, code⟩, s₁, honto, hrun⟩ := run_bind_eq_ok.mp hrun
      rw [run_onto, ← opening] at honto
      rcases hinner : run (inner body) (opening s c name) with ⟨(_ | _) | _, s₂⟩
      · rw [hinner] at honto
        cases honto
        -- The error of the body is raised again once the function is closed.
        obtain ⟨frame, s₃, -, hrun⟩ := run_bind_eq_ok.mp hrun
        cases hrun
      · rw [hinner] at honto
        cases honto
      · exact ⟨c, s₂, rfl, hinner⟩

/-- The text of a function that was emitted. -/
theorem written_of_run_emit {type : TypeSpecifier} {name : String} {body : Option Node}
    (hroom : s.sink.room = none)
    (hrun : run (Node.emit (.function type name body)) s = (.ok (), s')) :
    (Node.bodyValues body).length ≤ 1 ∧
      ∃ load, Loads (s.context.opened name) (Node.bodyValue body) load ∧
        s'.sink = (s.wrote (listing ([.code, .global name, .label name] ++
          Grammar.Definition.enters s.context.target) ++ Node.strayText body ++
            listing (load ++ Grammar.Definition.leaves s.context.target))).sink := by
  obtain ⟨c, s₁, hopen, hinner⟩ := run_inner_of_run_emit hrun
  obtain ⟨-, -, rfl⟩ := Context.openFunction_eq_ok hopen
  have hstate : (opening s (s.context.opened name) name).context.function =
      some ⟨name, .empty s.context.target, 0, 0, false⟩ := rfl
  obtain ⟨hvalues, load, hload, rfl⟩ := loads_of_run_inner hstate rfl rfl
    (Grammar.Definition.epilogue_empty _) hinner
  obtain ⟨journal, hemit⟩ := run_emit_function_ok hroom hopen hinner rfl rfl
    (Grammar.Definition.total_empty _) (Grammar.Definition.prologue_empty _)
  rw [hemit] at hrun
  cases hrun
  refine ⟨hvalues, load, hload, ?_⟩
  have hempty : Sink.unlimited.written = ByteArray.empty := rfl
  simp [Session.left, Session.wrote, opening, hempty, hroom, ByteArray.append_assoc]

end Emit

/-- A function that was emitted, unless a name or a declarator stands in the
place of its body, is written as whole lines: one label, one frame that is
entered and left, the value of its only return in between, and one return at the
end. -/
theorem lines_of_run_emit {s s' : Session} {type : TypeSpecifier} {name : String}
    {body : Option Node} (hroom : s.sink.room = none)
    (hbody : ∀ node, body = some node → node.kind ≠ .identifier ∧ node.kind ≠ .declarator)
    (hrun : run (Node.emit (.function type name body)) s = (.ok (), s')) :
    ∃ (frame : Frame) (enter load leave code : List Instr) (size : Int),
      s'.sink = (s.wrote (listing code)).sink ∧
      code = [.code, .global name, .label name] ++ enter ++ load ++ leave ∧
      frame.prologue = .ok enter ∧ frame.epilogue = .ok leave ∧
      (Node.bodyValues body).length ≤ 1 ∧
      Loads (s.context.opened name) (Node.bodyValue body) load ∧
      code.filter Instr.isLandmark = [.label name, .ret] ∧ code.getLast? = some .ret ∧
      (enter.map Instr.stackShift).sum = -size ∧ (leave.map Instr.stackShift).sum = size ∧
      0 < size ∧ 16 ∣ size := by
  have hstray : Node.strayText body = "" := by
    cases body with
    | none => rfl
    | some node =>
        obtain ⟨hidentifier, hdeclarator⟩ := hbody node rfl
        cases node with
        | identifier => exact absurd rfl hidentifier
        | declarator => exact absurd rfl hdeclarator
        | constant | ret | function | list => rfl
  obtain ⟨hvalues, load, hload, hsink⟩ := written_of_run_emit hroom hrun
  rw [hstray, String.append_empty, ← listing_append, ← List.append_assoc] at hsink
  refine ⟨.empty s.context.target, _, load, _, _, 16, hsink, rfl,
    Grammar.Definition.prologue_empty _, Grammar.Definition.epilogue_empty _, hvalues, hload,
    ?_, ?_, ?_, ?_, by decide, by decide⟩
  · simp only [List.filter_append, hload.no_landmark]
    rfl
  · rw [List.getLast?_append]
    rfl
  · cases s.context.target <;> rfl
  · cases s.context.target <;> rfl

/-- A return inside two lists, of a name that is bound outside the function. -/
theorem lines_of_run_emit_nested :
    ∃ s', run (Node.emit (.function .int "f" (some (.list [none, some (.list [some
        (.ret (some (.identifier "x")))])])))) (.ofContext ⟨.rv32, .empty,
          [.insert .empty "x" (.stack (-8))], none⟩) = (.ok (), s') ∧
      ∃ code, s'.sink = ⟨.empty ++ (listing code).toUTF8, none⟩ ∧
        code.filter Instr.isLandmark = [.label "f", .ret] := by
  have hok : (run (Node.emit (.function .int "f" (some (.list [none, some (.list [some
      (.ret (some (.identifier "x")))])])))) (.ofContext ⟨.rv32, .empty,
        [.insert .empty "x" (.stack (-8))], none⟩)).1 = .ok () := by cbv
  generalize hrun : run (Node.emit _) _ = outcome at hok ⊢
  obtain ⟨result, s'⟩ := outcome
  obtain rfl : result = .ok () := hok
  obtain ⟨_, _, _, _, code, _, hsink, -, -, -, -, -, hlandmarks, -⟩ :=
    lines_of_run_emit rfl (by rintro node ⟨⟩; decide) hrun
  exact ⟨s', rfl, code, hsink, hlandmarks⟩

/-- The text of a name in the place of a body runs into the line after it. -/
example : (run (Node.emit (.function .int "f" (some (.identifier "x"))))
      (.ofContext (.empty .rv32))).2.sink.written =
    (".text\n.globl f\nf:\n    addi sp, sp, -16\n    sw s0, 12(sp)\n    addi s0, sp, 16\n" ++
      "x    lw s0, 12(sp)\n    addi sp, sp, 16\n    ret\n").toUTF8 := by
  cbv

end MicroC
