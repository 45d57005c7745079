import MicroC.Proofs.Emission.Safety
import MicroC.Proofs.Emission.Shape

/-!
The functions of a program are compiled as if each of them stood alone. A body
may look up the functions before it, but the return of one of them is refused just
like the return of a name that is not bound. So a body that compiles does so in the
same way after any other functions, and only the errors tell them apart.
-/

namespace MicroC

open RiscV
open Emit

/-- Two points inside the same function, after different functions. -/
structure Session.Twins (s t : Session) : Prop where
  inner : t.context.inner = s.context.inner
  function : t.context.function = s.context.function
  inside : s.context.insideFunction = true
  globals : ∀ name storage, s.context.globals.find? name = some storage →
    ∃ label, storage = .function label
  sink : t.sink = s.sink

namespace Session.Twins

variable {s t : Session}

theorem insideFunction (h : s.Twins t) : t.context.insideFunction = s.context.insideFunction := by
  rw [Context.insideFunction, Context.insideFunction, h.function]

theorem returned (h : s.Twins t) : t.context.returned = s.context.returned := by
  rw [Context.returned, Context.returned, h.function]

theorem exists_state (h : s.Twins t) :
    ∃ state, s.context.function = some state ∧ t.context.function = some state := by
  obtain ⟨state, hstate⟩ := Option.isSome_iff_exists.mp h.inside
  exact ⟨state, hstate, h.function.trans hstate⟩

theorem finished (h : s.Twins t) :
    Twins { s with context := s.context.finished } { t with context := t.context.finished } where
  inner := h.inner
  function := by
    change Option.map _ t.context.function = Option.map _ s.context.function
    rw [h.function]
  inside := (Context.Advances.finished s.context).insideFunction.trans h.inside
  globals := h.globals
  sink := h.sink

/-- A name that has a value is bound inside the function. -/
theorem resolve {name : String} {storage : Storage} (h : s.Twins t)
    (hname : s.context.resolve name = .ok storage) (hvalue : ∀ label, storage ≠ .function label) :
    t.context.resolve name = .ok storage := by
  rw [Context.resolve] at hname ⊢
  rw [h.inner]
  cases hinner : s.context.inner.findSome? (·.find? name) with
  | some inner =>
      rw [hinner] at hname
      exact hname
  | none =>
      rw [hinner] at hname
      cases hglobal : s.context.globals.find? name with
      | none =>
          rw [hglobal] at hname
          cases hname
      | some global =>
          rw [hglobal] at hname
          cases hname
          obtain ⟨label, hlabel⟩ := h.globals name storage hglobal
          exact absurd hlabel (hvalue label)

end Session.Twins

namespace Emit

variable {α β : Type} {s t : Session}

/-- If one step succeeds, so does the other, and they end alike. -/
def Follows (outcome outcome' : Except (Halt EmitError) α × Session) : Prop :=
  ∀ a s', outcome = (.ok a, s') → ∃ t', outcome' = (.ok a, t') ∧ s'.Twins t'

theorem Follows.bind {x y : EmitM α} {f g : α → EmitM β} (h : Follows (run x s) (run y t))
    (h' : ∀ a s' t', s'.Twins t' → Follows (run (f a) s') (run (g a) t')) :
    Follows (run (x >>= f) s) (run (y >>= g) t) := by
  intro b s' hrun
  obtain ⟨a, s₁, hx, hf⟩ := run_bind_eq_ok.mp hrun
  obtain ⟨t₁, hy, htwins⟩ := h a s₁ hx
  obtain ⟨t', hg, htwins'⟩ := h' a s₁ t₁ htwins b s' hf
  exact ⟨t', run_bind_eq_ok.mpr ⟨a, t₁, hy, hg⟩, htwins'⟩

/-! ### Steps -/

theorem follows_pure (h : s.Twins t) (a : α) : Follows (run (pure a) s) (run (pure a) t) := by
  intro b s' hrun
  cases hrun
  exact ⟨t, rfl, h⟩

theorem follows_of_error {stop : Halt EmitError} {outcome : Except (Halt EmitError) α × Session} :
    Follows (.error stop, s) outcome := by
  intro a s' hrun
  cases hrun

theorem follows_contract (h : s.Twins t) (x : Except Breach α) :
    Follows (run (contract x) s) (run (contract x) t) := by
  cases x with
  | ok a => exact follows_pure h a
  | error breach => exact follows_of_error

theorem follows_permitted (h : s.Twins t) (x : Except EmitError α) :
    Follows (run (permitted x) s) (run (permitted x) t) := by
  cases x with
  | ok a => exact follows_pure h a
  | error error => exact follows_of_error

theorem follows_write (h : s.Twins t) (bytes : ByteArray) :
    Follows (run (write bytes) s) (run (write bytes) t) := by
  rw [run_write_eq, run_write_eq, h.sink]
  have htwins : Session.Twins { s with sink := (s.sink.write bytes).2 }
      { t with sink := (s.sink.write bytes).2 } :=
    ⟨h.inner, h.function, h.inside, h.globals, rfl⟩
  exact follows_permitted htwins _

theorem follows_instruction (h : s.Twins t) (i : Instr) :
    Follows (run (instruction i) s) (run (instruction i) t) := follows_write h _

theorem follows_instructions (h : s.Twins t) (code : List Instr) :
    Follows (run (instructions code) s) (run (instructions code) t) := by
  induction code generalizing s t with
  | nil => exact follows_pure h ()
  | cons i code ih => exact (follows_instruction h i).bind fun _ _ _ h' => ih h'

theorem follows_setReturned (h : s.Twins t) :
    Follows (run setReturned s) (run setReturned t) := by
  obtain ⟨state, hs, ht⟩ := h.exists_state
  rw [run_setReturned hs, run_setReturned ht]
  exact follows_pure h.finished ()

/-! ### Statements -/

theorem follows_constant (h : s.Twins t) (value : Int64) :
    Follows (run (constant value) s) (run (constant value) t) := by
  rw [constant, run_bind, run_bind]
  simp only [run_context, h.insideFunction, h.inside, Bool.not_true, Bool.false_eq_true, if_false]
  split
  · exact Follows.bind follows_of_error fun _ _ _ h' => follows_instruction h' _
  · exact follows_instruction h _

theorem follows_named (h : s.Twins t) (name : String) :
    Follows (run (named name) s) (run (named name) t) := by
  simp only [named, resolve, run_bind, run_context]
  cases hname : s.context.resolve name with
  | error error => exact follows_of_error
  | ok storage =>
      cases storage with
      | stack offset =>
          rw [h.resolve hname fun _ hlabel => by cases hlabel]
          dsimp only [run_permitted_ok]
          split
          · exact follows_instruction h _
          · exact follows_instructions h _
      | register reg =>
          rw [h.resolve hname fun _ hlabel => by cases hlabel]
          exact follows_instruction h _
      | function label => exact follows_of_error

theorem follows_returnValue (h : s.Twins t) (node : Node) :
    Follows (run (returnValue node) s) (run (returnValue node) t) := by
  cases node with
  | constant value => exact follows_constant h value
  | identifier name => exact follows_named h name
  | ret | declarator | function | list => exact follows_of_error

theorem follows_leave (h : s.Twins t) : Follows (run leave s) (run leave t) := by
  obtain ⟨state, hs, ht⟩ := h.exists_state
  rw [leave, run_bind, run_bind, run_frame hs, run_frame ht]
  refine (follows_contract h _).bind fun code s₁ t₁ h₁ => ?_
  exact (follows_instructions h₁ code).bind fun _ _ _ h₂ => follows_setReturned h₂

theorem follows_returnStatement (h : s.Twins t) (expression : Option Node) :
    Follows (run (returnStatement expression) s) (run (returnStatement expression) t) := by
  rw [returnStatement, run_bind, run_bind]
  simp only [run_context, h.insideFunction, h.inside, Bool.not_true, Bool.false_eq_true, if_false]
  cases expression with
  | none => exact follows_leave h
  | some node => exact (follows_returnValue h node).bind fun _ _ _ h' => follows_leave h'

theorem follows_requireReachable (h : s.Twins t) :
    Follows (run requireReachable s) (run requireReachable t) := by
  simp only [requireReachable, run_bind, run_context, Context.requireReachable, h.returned]
  exact follows_permitted h _

theorem follows_checkEntry (h : s.Twins t) (node : Node) :
    Follows (run (checkEntry node) s) (run (checkEntry node) t) := by
  cases node with
  | ret | function | list => exact follows_pure h ()
  | identifier | constant | declarator =>
      simp only [checkEntry, run_bind, run_context, h.inside, if_true]
      exact follows_of_error

mutual

theorem follows_emit (node : Node) {s t : Session} (h : s.Twins t) :
    Follows (run node.emit s) (run node.emit t) := by
  cases node with
  | identifier name =>
      rw [Node.emit]
      exact follows_write h _
  | constant value =>
      rw [Node.emit]
      exact follows_constant h value
  | ret expression =>
      rw [Node.emit]
      exact follows_returnStatement h expression
  | declarator name =>
      rw [Node.emit]
      exact follows_instruction h _
  | function type name body =>
      -- Functions do not nest.
      obtain ⟨state, hs, -⟩ := h.exists_state
      have hopen := Context.openFunction_of_function hs name
      rw [emit_function, run_bind, run_openFunction_error hopen]
      exact follows_of_error
  | list entries =>
      rw [Node.emit]
      exact follows_emitEntries entries h

theorem follows_emitEntries (entries : List (Option Node)) {s t : Session} (h : s.Twins t) :
    Follows (run (Node.emitEntries entries) s) (run (Node.emitEntries entries) t) := by
  cases entries with
  | nil =>
      rw [Node.emitEntries]
      exact follows_pure h ()
  | cons entry rest =>
      cases entry with
      | none =>
          rw [Node.emitEntries]
          exact follows_emitEntries rest h
      | some node =>
          rw [Node.emitEntries]
          refine (follows_requireReachable h).bind fun _ _ _ h₁ => ?_
          refine (follows_checkEntry h₁ node).bind fun _ _ _ h₂ => ?_
          exact (follows_emit node h₂).bind fun _ _ _ h₃ => follows_emitEntries rest h₃

end

theorem follows_inner (h : s.Twins t) (body : Option Node) :
    Follows (run (inner body) s) (run (inner body) t) := by
  have hbody : Follows (run (Node.emitOption body) s) (run (Node.emitOption body) t) := by
    cases body with
    | none => exact follows_pure h ()
    | some node =>
        rw [Node.emitOption]
        exact follows_emit node h
  refine hbody.bind fun _ s₁ t₁ h₁ => ?_
  rw [run_bind, run_bind]
  simp only [run_context, h₁.returned]
  split
  · exact follows_leave h₁
  · exact follows_pure h₁ ()

/-! ### Functions -/

variable {s' : Session} {target : Target} {names names' : List String} {type : TypeSpecifier}
  {name : String} {body : Option Node}

theorem twins_opening (hs : s.context.Between target names) (ht : t.context.Between target names')
    (name : String) :
    (opening s (s.context.opened name) name).Twins (opening t (t.context.opened name) name) where
  inner := ht.opened.inner.trans hs.opened.inner.symm
  function := by
    change some _ = some _
    rw [hs.target, ht.target]
  inside := rfl
  globals := by
    intro other storage hother
    have hbinds : some storage = if other ∈ name :: names then some (.function other) else none :=
      hother.symm.trans (hs.opened.globals other)
    split at hbinds
    · exact ⟨other, Option.some.inj hbinds⟩
    · cases hbinds
  sink := rfl

/-- A function is written once its body is done. -/
theorem run_emit_of_run_inner {s₁ : Session} {text : String} (h : s.context.Between target names)
    (hroom : s.sink.room = none) (hname : name ∉ names)
    (hinner : run (inner body) (opening s (s.context.opened name) name) = (.ok (), s₁))
    (htext : s₁.sink.written = text.toUTF8) :
    ∃ s', run (Node.emit (.function type name body)) s = (.ok (), s') ∧
      s'.context.Between target (name :: names) ∧
      s'.sink = (s.wrote (listing ([.code, .global name, .label name] ++
        Grammar.Definition.enters target) ++ text)).sink := by
  have hopened : (opening s (s.context.opened name) name).context.function =
      some ⟨name, .empty s.context.target, 0, 0, false⟩ := rfl
  obtain ⟨-, load, -, rfl⟩ := loads_of_run_inner hopened rfl rfl
    (Grammar.Definition.epilogue_empty _) hinner
  have hwithin : (s.context.opened name).finished.Within target (name :: names) true :=
    h.opened.finished
  obtain ⟨state, hstate, hframe, -⟩ := hwithin.function
  obtain ⟨journal, hrun⟩ := run_emit_function_ok hroom (h.openFunction hname) hinner hstate
    hwithin.inner (hframe ▸ Grammar.Definition.total_empty target)
    (hframe ▸ Grammar.Definition.prologue_empty target)
  refine ⟨_, hrun, hwithin.closed, ?_⟩
  rw [htext]
  simp [Session.wrote, hroom, ByteArray.append_assoc]

/-- A function that is emitted after some functions is emitted with the same text
after any others of which none has its name. -/
theorem run_emit_after (hs : s.context.Between target names)
    (ht : t.context.Between target names') (hroom : s.sink.room = none)
    (hroom' : t.sink.room = none) (hname : name ∉ names')
    (hrun : run (Node.emit (.function type name body)) s = (.ok (), s')) :
    name ∉ names ∧ s'.context.Between target (name :: names) ∧
      ∃ text t', s'.sink = (s.wrote text).sink ∧
        run (Node.emit (.function type name body)) t = (.ok (), t') ∧
        t'.context.Between target (name :: names') ∧ t'.sink = (t.wrote text).sink := by
  obtain ⟨c, s₁, hopen, hinner⟩ := run_inner_of_run_emit hrun
  obtain ⟨-, hunbound, rfl⟩ := Context.openFunction_eq_ok hopen
  have hfresh : name ∉ names := by
    intro hmem
    rw [hs.globals, if_pos hmem] at hunbound
    cases hunbound
  -- Both bodies are written to streams of their own, which end up the same.
  obtain ⟨t₁, hinner', htwins⟩ := follows_inner (twins_opening hs ht name) body () s₁ hinner
  obtain ⟨text, htext⟩ : ∃ text : String, s₁.sink.written = text.toUTF8 := by
    have heffect := effect_inner rfl
      (effect_emitOption body (opening s (s.context.opened name) name))
    rw [hinner] at heffect
    obtain ⟨text, htext⟩ := heffect.sink.text rfl
    exact ⟨text, htext.trans ByteArray.empty_append⟩
  obtain ⟨s₂, hemit, hbetween, hsink⟩ := run_emit_of_run_inner hs hroom hfresh hinner htext
  obtain ⟨t', hemit', hbetween', hsink'⟩ :=
    run_emit_of_run_inner ht hroom' hname hinner' (htwins.sink ▸ htext)
  rw [hemit] at hrun
  cases hrun
  exact ⟨hfresh, hbetween, _, t', hsink, hemit', hbetween', hsink'⟩

end Emit

/-! ### Programs -/

namespace Assembly

variable {target : Target}

theorem between_start (target : Target) (root : Node) :
    (start target root).context.Between target [] := ⟨rfl, rfl, fun _ => rfl, rfl⟩

theorem exists_text_of_run {root : Node} (h : (run root.emit (start target root)).1 = .ok ()) :
    ∃ text, (ofTree target root).result = .ok text := by
  obtain ⟨s', text, -, -, hresult⟩ | ⟨s', stop, hrun, -⟩ := exists_result target root
  · exact ⟨text, hresult⟩
  · rw [hrun] at h
    cases h

/-- What is written from the start on is the code. -/
theorem result_of_run {root : Node} {s' : Session} {text : String}
    (hrun : run root.emit (start target root) = (.ok (), s'))
    (hsink : s'.sink = ((start target root).wrote text).sink) :
    (ofTree target root).result = .ok text := by
  obtain ⟨s'', text', hrun', hwritten, hresult⟩ | ⟨s'', stop, hrun', -⟩ :=
    exists_result target root
  · rw [hrun] at hrun'
    cases hrun'
    have hbytes : text.toUTF8 = text'.toUTF8 := by
      rw [← hwritten, hsink]
      exact ByteArray.empty_append.symm
    rw [hresult, String.toByteArray_inj.mp hbytes]
  · rw [hrun] at hrun'
    cases hrun'

end Assembly

open Assembly (between_start result_of_run)

/-- A definition of a function, whatever its body is. -/
structure FunctionNode where
  type : TypeSpecifier
  name : String
  body : Option Node

namespace FunctionNode

def node (f : FunctionNode) : Node := .function f.type f.name f.body

def program (functions : List FunctionNode) : Node := .list (functions.map fun f => some f.node)

/-- The code of a function by itself, if it has any. -/
def text (target : Target) (f : FunctionNode) : String :=
  (Assembly.ofTree target f.node).result.toOption.getD ""

def Compiles (target : Target) (f : FunctionNode) : Prop :=
  (Assembly.ofTree target f.node).result = .ok (f.text target)

variable {target : Target} {f : FunctionNode}

theorem compiles_of_result {text : String}
    (h : (Assembly.ofTree target f.node).result = .ok text) :
    f.Compiles target ∧ f.text target = text := by
  have htext : f.text target = text := by
    rw [FunctionNode.text, h]
    rfl
  exact ⟨by rw [Compiles, h, htext], htext⟩

variable {s s' : Session} {names : List String}

theorem compiles_of_run (h : s.context.Between target names) (hroom : s.sink.room = none)
    (hrun : run f.node.emit s = (.ok (), s')) :
    f.Compiles target ∧ f.name ∉ names ∧ s'.context.Between target (f.name :: names) ∧
      s'.sink = (s.wrote (f.text target)).sink := by
  obtain ⟨hname, hbetween, text, t, hsink, halone, -, hsink'⟩ :=
    run_emit_after h (between_start target f.node) hroom rfl List.not_mem_nil hrun
  obtain ⟨hcompiles, rfl⟩ := compiles_of_result (result_of_run halone hsink')
  exact ⟨hcompiles, hname, hbetween, hsink⟩

theorem run_of_compiles (h : s.context.Between target names) (hroom : s.sink.room = none)
    (hname : f.name ∉ names) (hf : f.Compiles target) :
    ∃ s', run f.node.emit s = (.ok (), s') ∧ s'.context.Between target (f.name :: names) ∧
      s'.sink = (s.wrote (f.text target)).sink := by
  obtain ⟨s₀, -, halone, -, -⟩ | ⟨s₀, stop, -, hstop⟩ := Assembly.exists_result target f.node
  · obtain ⟨-, -, text, s', hsink, hrun, hbetween, hsink'⟩ :=
      run_emit_after (between_start target f.node) h rfl hroom hname halone
    obtain ⟨-, rfl⟩ := compiles_of_result (result_of_run halone hsink)
    exact ⟨s', hrun, hbetween, hsink'⟩
  · rw [Compiles, hstop] at hf
    cases hf

/-! ### Lists of functions -/

theorem join_cons (text : String) (texts : List String) :
    String.join (text :: texts) = text ++ String.join texts := by
  simp [String.join_eq]

theorem join_append (texts texts' : List String) :
    String.join (texts ++ texts') = String.join texts ++ String.join texts' := by
  simp [String.join_eq]

/-- Between functions, every function is an entry. -/
theorem run_emitEntries_cons (h : s.context.Between target names) (f : FunctionNode)
    (entries : List (Option Node)) :
    run (Node.emitEntries (some f.node :: entries)) s =
      run (f.node.emit >>= fun _ => Node.emitEntries entries) s := by
  have hreach := run_requireReachable_of_not_returned (Context.returned_of_outside h.function)
  have hcheck : checkEntry f.node = pure () := rfl
  rw [Node.emitEntries, run_bind, hreach, hcheck]
  rfl

variable {functions : List FunctionNode}

theorem compiles_of_run_emitEntries (h : s.context.Between target names)
    (hroom : s.sink.room = none)
    (hrun : run (Node.emitEntries (functions.map fun f => some f.node)) s = (.ok (), s')) :
    (functions.map name).Nodup ∧ (∀ f ∈ functions, f.name ∉ names ∧ f.Compiles target) ∧
      s'.sink = (s.wrote (String.join (functions.map (text target)))).sink := by
  induction functions generalizing s names with
  | nil =>
      cases hrun
      exact ⟨List.nodup_nil, List.forall_mem_nil _, congrArg Session.sink s'.wrote_empty.symm⟩
  | cons f functions ih =>
      rw [List.map_cons, run_emitEntries_cons h] at hrun
      obtain ⟨_, s₁, hfirst, hlater⟩ := run_bind_eq_ok.mp hrun
      obtain ⟨hf, hname, hbetween, hsink⟩ := compiles_of_run h hroom hfirst
      obtain ⟨hnodup, hfunctions, hsink'⟩ := ih hbetween (by rw [hsink]; exact hroom) hlater
      refine ⟨?_, ?_, ?_⟩
      · rw [List.map_cons, List.nodup_cons]
        refine ⟨fun hmem => ?_, hnodup⟩
        obtain ⟨g, hg, hsame⟩ := List.mem_map.mp hmem
        exact (hfunctions g hg).1 (hsame ▸ List.mem_cons_self)
      · rw [List.forall_mem_cons]
        exact ⟨⟨hname, hf⟩, fun g hg =>
          ⟨fun hmem => (hfunctions g hg).1 (List.mem_cons_of_mem _ hmem), (hfunctions g hg).2⟩⟩
      · rw [hsink', List.map_cons, join_cons, Session.sink_wrote hsink]

theorem run_emitEntries_of_compiles (h : s.context.Between target names)
    (hroom : s.sink.room = none) (hnodup : (functions.map name).Nodup)
    (hfunctions : ∀ f ∈ functions, f.name ∉ names ∧ f.Compiles target) :
    ∃ s', run (Node.emitEntries (functions.map fun f => some f.node)) s = (.ok (), s') ∧
      s'.sink = (s.wrote (String.join (functions.map (text target)))).sink := by
  induction functions generalizing s names with
  | nil => exact ⟨s, rfl, congrArg Session.sink s.wrote_empty.symm⟩
  | cons f functions ih =>
      rw [List.map_cons, List.nodup_cons] at hnodup
      rw [List.forall_mem_cons] at hfunctions
      obtain ⟨⟨hname, hf⟩, hlater⟩ := hfunctions
      obtain ⟨s₁, hfirst, hbetween, hsink⟩ := run_of_compiles h hroom hname hf
      have hfresh : ∀ g ∈ functions, g.name ∉ f.name :: names ∧ g.Compiles target := by
        intro g hg
        refine ⟨fun hmem => ?_, (hlater g hg).2⟩
        rcases List.mem_cons.mp hmem with hsame | hmem
        · exact hnodup.1 (hsame ▸ List.mem_map_of_mem hg)
        · exact (hlater g hg).1 hmem
      obtain ⟨s', hrun, hsink'⟩ := ih hbetween (by rw [hsink]; exact hroom) hnodup.2 hfresh
      refine ⟨s', ?_, ?_⟩
      · rw [List.map_cons, run_emitEntries_cons h]
        exact run_bind_eq_ok.mpr ⟨(), s₁, hfirst, hrun⟩
      · rw [hsink', List.map_cons, join_cons, Session.sink_wrote hsink]

/-- A program compiles if its functions do and have different names, and its code
is theirs in order. -/
theorem result_program_iff {text : String} :
    (Assembly.ofTree target (program functions)).result = .ok text ↔
      (functions.map name).Nodup ∧ (∀ f ∈ functions, f.Compiles target) ∧
        text = String.join (functions.map (FunctionNode.text target)) := by
  have hstart := between_start target (program functions)
  have hemit : (program functions).emit =
      Node.emitEntries (functions.map fun f => some f.node) := by
    rw [program, Node.emit]
  constructor
  · intro hresult
    obtain ⟨s', -, hrun, -, -⟩ | ⟨s', stop, -, hstop⟩ :=
      Assembly.exists_result target (program functions)
    · obtain ⟨hnodup, hfunctions, hsink⟩ :=
        compiles_of_run_emitEntries hstart rfl (hemit ▸ hrun)
      rw [result_of_run hrun hsink] at hresult
      exact ⟨hnodup, fun f hf => (hfunctions f hf).2, (Except.ok.inj hresult).symm⟩
    · rw [hstop] at hresult
      cases hresult
  · rintro ⟨hnodup, hfunctions, rfl⟩
    obtain ⟨s', hrun, hsink⟩ := run_emitEntries_of_compiles hstart rfl hnodup
      fun f hf => ⟨List.not_mem_nil, hfunctions f hf⟩
    exact result_of_run (hemit ▸ hrun) hsink

end FunctionNode

open FunctionNode (program)

/-- Two lists of functions compile together if each of them compiles and they share
no name, and the code is that of the first and then that of the second. So a program
that compiles does so in any order, with the code of its functions in that order. -/
theorem compiled_separately (target : Target) :
    (∀ (before after : List FunctionNode) (text : String),
      (Assembly.ofTree target (program (before ++ after))).result = .ok text ↔
        ∃ first last, (Assembly.ofTree target (program before)).result = .ok first ∧
          (Assembly.ofTree target (program after)).result = .ok last ∧
          (∀ f ∈ before, ∀ g ∈ after, f.name ≠ g.name) ∧ text = first ++ last) ∧
    ∀ (functions reordered : List FunctionNode) (text : String), functions.Perm reordered →
      (Assembly.ofTree target (program functions)).result = .ok text →
        ∃ texts : FunctionNode → String,
          (∀ f ∈ functions, (Assembly.ofTree target (program [f])).result = .ok (texts f)) ∧
          text = String.join (functions.map texts) ∧
          (Assembly.ofTree target (program reordered)).result =
            .ok (String.join (reordered.map texts)) := by
  simp only [FunctionNode.result_program_iff]
  refine ⟨fun before after text => ⟨?_, ?_⟩, ?_⟩
  · rintro ⟨hnodup, hfunctions, rfl⟩
    rw [List.map_append, List.nodup_append] at hnodup
    obtain ⟨hbefore, hafter, hdisjoint⟩ := hnodup
    rw [List.forall_mem_append] at hfunctions
    refine ⟨_, _, ⟨hbefore, hfunctions.1, rfl⟩, ⟨hafter, hfunctions.2, rfl⟩, ?_, ?_⟩
    · exact fun f hf g hg => hdisjoint _ (List.mem_map_of_mem hf) _ (List.mem_map_of_mem hg)
    · rw [List.map_append, FunctionNode.join_append]
  · rintro ⟨_, _, ⟨hbefore, hfirst, rfl⟩, ⟨hafter, hlast, rfl⟩, hdisjoint, rfl⟩
    refine ⟨?_, List.forall_mem_append.mpr ⟨hfirst, hlast⟩, ?_⟩
    · rw [List.map_append, List.nodup_append]
      refine ⟨hbefore, hafter, fun name hname other hother => ?_⟩
      obtain ⟨f, hf, rfl⟩ := List.mem_map.mp hname
      obtain ⟨g, hg, rfl⟩ := List.mem_map.mp hother
      exact hdisjoint f hf g hg
    · rw [List.map_append, FunctionNode.join_append]
  · rintro functions reordered _ hperm ⟨hnodup, hfunctions, rfl⟩
    refine ⟨FunctionNode.text target, fun f hf => ⟨List.nodup_singleton _, ?_, ?_⟩, rfl,
      ?_, ?_, rfl⟩
    · rw [List.forall_mem_singleton]
      exact hfunctions f hf
    · rw [List.map_singleton, FunctionNode.join_cons]
      exact String.append_empty.symm
    · exact (hperm.map _).nodup_iff.mp hnodup
    · exact fun f hf => hfunctions f (hperm.mem_iff.mpr hf)

/-- A function that returns a value and one whose body is a name, in either order. -/
theorem compiled_separately_swapped :
    let f : FunctionNode := ⟨.int, "f", some (.list [none, some (.ret (some (.constant 1)))])⟩
    let g : FunctionNode := ⟨.int, "g", some (.identifier "f")⟩
    (∃ text, (Assembly.ofTree .rv32 (program ([f] ++ [g]))).result = .ok text) ∧
      ∃ texts : FunctionNode → String,
        (Assembly.ofTree .rv32 (program [g])).result = .ok (texts g) ∧
        (Assembly.ofTree .rv32 (program [g, f])).result = .ok (String.join [texts g, texts f]) := by
  intro f g
  obtain ⟨happend, hperm⟩ := compiled_separately .rv32
  obtain ⟨first, hfirst⟩ : ∃ text, (Assembly.ofTree .rv32 (program [f])).result = .ok text :=
    Assembly.exists_text_of_run (by cbv)
  obtain ⟨last, hlast⟩ : ∃ text, (Assembly.ofTree .rv32 (program [g])).result = .ok text :=
    Assembly.exists_text_of_run (by cbv)
  have hboth := (happend [f] [g] _).mpr ⟨first, last, hfirst, hlast, by simp [f, g], rfl⟩
  obtain ⟨texts, htexts, -, hswapped⟩ := hperm [f, g] [g, f] _ (.swap g f []) hboth
  exact ⟨⟨_, hboth⟩, texts, htexts g (by simp), hswapped⟩

end MicroC
