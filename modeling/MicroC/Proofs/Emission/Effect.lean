import MicroC.Proofs.Emission.Run
import MicroC.Proofs.Frame.Code

/-!
What emission may do, whether it succeeds or stops somewhere on the way. Steps
compose, so that each of them is looked at once: it binds no names but those of
the functions that it begins, leaves the scopes and the current function as they
are, except that the function may have returned, and writes text. It breaks a
contract only if the frame of the current function was out of bounds before.
-/

namespace MicroC

open RiscV
open Journal (Record)

namespace Journal

/-- The function that a record says was begun. -/
def Record.begun? : Record → Option String
  | .functionBegun name => some name
  | _ => none

/-- The functions that were begun according to a journal. -/
def begun (journal : List Record) : List String := journal.filterMap Record.begun?

theorem begun_append (journal journal' : List Record) :
    begun (journal ++ journal') = begun journal ++ begun journal' := List.filterMap_append

end Journal

open Journal (begun begun_append)

namespace Node

mutual

/-- The names of the functions that a tree defines, at any depth. -/
def defined : Node → List String
  | .identifier _ | .constant _ | .declarator _ => []
  | .ret expression => definedOption expression
  | .function _ name body => name :: definedOption body
  | .list entries => definedEntries entries

def definedOption : Option Node → List String
  | none => []
  | some node => node.defined

def definedEntries : List (Option Node) → List String
  | [] => []
  | entry :: rest => definedOption entry ++ definedEntries rest

end

end Node

/-- One scope binds what another does and the functions `names`, which are new. -/
structure Scope.Gains (g : Scope) (names : List String) (g' : Scope) : Prop where
  unbound : ∀ name ∈ names, g.find? name = none
  find? : ∀ name, g'.find? name = if name ∈ names then some (.function name) else g.find? name

namespace Scope.Gains

variable {g g' g'' : Scope} {names names' : List String}

theorem refl (g : Scope) : g.Gains [] g := ⟨by simp, by simp⟩

theorem insert {name : String} (h : g.find? name = none) :
    g.Gains [name] (g.insert name (.function name)) := by
  constructor
  · intro other hother
    rw [List.mem_singleton.mp hother, h]
  · intro other
    rw [find?_insert]
    by_cases hother : other = name <;> simp [hother]

theorem trans (h : g.Gains names g') (h' : g'.Gains names' g'') :
    g.Gains (names' ++ names) g'' := by
  constructor
  · intro name hname
    rcases List.mem_append.mp hname with hname | hname
    · -- What the second step adds was not bound by the first one either.
      have hunbound := h'.unbound name hname
      rw [h.find? name] at hunbound
      split at hunbound
      · cases hunbound
      · exact hunbound
    · exact h.unbound name hname
  · intro name
    rw [h'.find? name, h.find? name]
    by_cases hname : name ∈ names' <;> simp [hname]

end Scope.Gains

namespace Context

/-- What emission may do to a context: outside functions, bind the functions
`names` in the scope of the whole program; inside one, have it return. -/
structure Advances (c : Context) (names : List String) (c' : Context) : Prop where
  target : c'.target = c.target
  inner : c'.inner = c.inner
  globals : c.globals.Gains names c'.globals
  function : c'.function = c.function ∨ c'.function = c.finished.function
  outside : c.insideFunction = true → names = []

/-- The frame of the current function is within its bounds. -/
def Sound (c : Context) : Prop := ∀ state, c.function = some state → state.frame.Sound

namespace Advances

variable {c c' c'' : Context} {names names' : List String}

theorem refl (c : Context) : c.Advances [] c := ⟨rfl, rfl, .refl _, .inl rfl, fun _ => rfl⟩

theorem finished (c : Context) : c.Advances [] c.finished :=
  ⟨rfl, rfl, .refl _, .inr rfl, fun _ => rfl⟩

theorem insideFunction (h : c.Advances names c') : c'.insideFunction = c.insideFunction := by
  rw [Context.insideFunction, Context.insideFunction]
  rcases h.function with hsame | hfinished
  · rw [hsame]
  · rw [hfinished, Context.finished, Option.isSome_map]

/-- The frame stays, with all else that is known about the current function. -/
theorem exists_state {state' : CurrentFunction} (h : c.Advances names c')
    (hstate : c'.function = some state') :
    ∃ state, c.function = some state ∧
      (state' = state ∨ state' = { state with returned := true }) := by
  rcases h.function with hsame | hfinished
  · exact ⟨state', hsame ▸ hstate, .inl rfl⟩
  · rw [hfinished] at hstate
    obtain ⟨state, hc, rfl⟩ := Option.map_eq_some_iff.mp hstate
    exact ⟨state, hc, .inr rfl⟩

theorem sound (h : c.Advances names c') (hc : c.Sound) : c'.Sound := by
  intro state' hstate'
  obtain ⟨state, hstate, rfl | rfl⟩ := h.exists_state hstate'
  · exact hc _ hstate
  · exact hc state hstate

theorem trans (h : c.Advances names c') (h' : c'.Advances names' c'') :
    c.Advances (names' ++ names) c'' where
  target := h'.target.trans h.target
  inner := h'.inner.trans h.inner
  globals := h.globals.trans h'.globals
  function := by
    rcases h.function with hf | hf <;> rcases h'.function with hf' | hf'
    · exact .inl (hf'.trans hf)
    · exact .inr (by rw [hf', Context.finished, hf, Context.finished])
    · exact .inr (hf'.trans hf)
    · refine .inr ?_
      rw [hf', Context.finished, hf, Context.finished]
      cases c.function <;> rfl
  outside := fun hinside => by
    rw [h.outside hinside, h'.outside (h.insideFunction.trans hinside)]
    rfl

end Advances

end Context

/-- What a stream that has no limit is given is text. -/
structure Sink.Takes (k k' : Sink) : Prop where
  room : k'.room = none ↔ k.room = none
  text : k.room = none → ∃ text : String, k'.written = k.written ++ text.toUTF8

namespace Sink.Takes

variable {k k' k'' : Sink}

theorem refl (k : Sink) : k.Takes k := ⟨Iff.rfl, fun _ => ⟨"", by simp⟩⟩

theorem trans (h : k.Takes k') (h' : k'.Takes k'') : k.Takes k'' := by
  refine ⟨h'.room.trans h.room, fun hroom => ?_⟩
  obtain ⟨text, htext⟩ := h.text hroom
  obtain ⟨text', htext'⟩ := h'.text (h.room.mpr hroom)
  exact ⟨text ++ text', by simp [htext', htext, ByteArray.append_assoc]⟩

end Sink.Takes

namespace Emit

/-- How emission may stop. -/
inductive Stops (s : Session) : Halt EmitError → Prop
  | unbound (name : String) : Stops s (.failure (.unbound name))
  | redefinition (name : String) : Stops s (.failure (.redefinition name))
  | unsupported (construct : Construct) : Stops s (.failure (.unsupported construct))
  | full (h : s.sink.room ≠ none) : Stops s (.failure (.stream .full))
  | breach (h : ¬s.context.Sound) (breach : Breach) : Stops s (.breach breach)

/-- What a step of emission does that begins no functions but `names`. -/
structure Effect {α : Type} (names : List String) (s : Session)
    (outcome : Except (Halt EmitError) α × Session) : Prop where
  context : ∃ records, outcome.2.journal = records ++ s.journal ∧
    s.context.Advances (begun records) outcome.2.context ∧ begun records ⊆ names
  sink : s.sink.Takes outcome.2.sink
  stops : ∀ stop, outcome.1 = .error stop → Stops s stop

variable {α β : Type} {names names' : List String} {s s' : Session}

namespace Effect

theorem advances {outcome : Except (Halt EmitError) α × Session} (h : Effect names s outcome) :
    ∃ begun, s.context.Advances begun outcome.2.context := by
  obtain ⟨records, -, hadvances, -⟩ := h.context
  exact ⟨_, hadvances⟩

theorem insideFunction {outcome : Except (Halt EmitError) α × Session}
    (h : Effect names s outcome) : outcome.2.context.insideFunction = s.context.insideFunction := by
  obtain ⟨begun, hadvances⟩ := h.advances
  exact hadvances.insideFunction

theorem mono {outcome : Except (Halt EmitError) α × Session} (h : Effect names s outcome)
    (hnames : names ⊆ names') : Effect names' s outcome := by
  obtain ⟨records, hjournal, hadvances, hbegun⟩ := h.context
  exact ⟨⟨records, hjournal, hadvances, List.Subset.trans hbegun hnames⟩, h.sink, h.stops⟩

/-- Whether a step stops does not hang on what a step before it did. -/
theorem stops_of_stops {outcome : Except (Halt EmitError) α × Session} (h : Effect names s outcome)
    {stop : Halt EmitError} (hstop : Stops outcome.2 stop) : Stops s stop := by
  cases hstop with
  | unbound name => exact .unbound name
  | redefinition name => exact .redefinition name
  | unsupported construct => exact .unsupported construct
  | full hroom => exact .full fun hnone => hroom (h.sink.room.mpr hnone)
  | breach hsound breach =>
      obtain ⟨begun, hadvances⟩ := h.advances
      exact .breach (fun hs => hsound (hadvances.sound hs)) breach

theorem trans {result : Except (Halt EmitError) α} {outcome : Except (Halt EmitError) β × Session}
    (h : Effect names s (result, s')) (h' : Effect names s' outcome) :
    Effect names s outcome := by
  obtain ⟨records, hjournal, hadvances, hbegun⟩ := h.context
  obtain ⟨records', hjournal', hadvances', hbegun'⟩ := h'.context
  refine ⟨⟨records' ++ records, ?_, ?_, ?_⟩, h.sink.trans h'.sink, fun stop hstop =>
    h.stops_of_stops (h'.stops stop hstop)⟩
  · rw [hjournal', hjournal, List.append_assoc]
  · rw [begun_append]
    exact hadvances.trans hadvances'
  · rw [begun_append]
    exact List.append_subset.mpr ⟨hbegun', hbegun⟩

/-- A step that changes nothing. -/
theorem unmoved {result : Except (Halt EmitError) α}
    (h : ∀ stop, result = .error stop → Stops s stop) : Effect names s (result, s) :=
  ⟨⟨[], rfl, .refl _, List.nil_subset _⟩, .refl _, h⟩

theorem bind {x : EmitM α} {f : α → EmitM β} (hx : Effect names s (run x s))
    (hf : ∀ a s', run x s = (.ok a, s') → Effect names s' (run (f a) s')) :
    Effect names s (run (x >>= f) s) := by
  rw [run_bind]
  rcases hrun : run x s with ⟨result, s'⟩
  rw [hrun] at hx
  cases result with
  | error stop => exact ⟨hx.context, hx.sink, fun _ h => hx.stops _ (by simpa using h)⟩
  | ok a => exact hx.trans (hf a s' hrun)

/-- No step leaves the current function. -/
theorem bind_inside {x : EmitM α} {f : α → EmitM β} (h : s.context.insideFunction = true)
    (hx : Effect names s (run x s))
    (hf : ∀ a s', s'.context.insideFunction = true → Effect names s' (run (f a) s')) :
    Effect names s (run (x >>= f) s) := by
  refine hx.bind fun a s' hrun => hf a s' ?_
  rw [hrun] at hx
  exact hx.insideFunction.trans h

end Effect

/-! ### Steps -/

theorem effect_pure (a : α) : Effect names s (run (pure a) s) :=
  .unmoved fun _ h => by cases h

theorem effect_fail {error : EmitError} (h : Stops s (.failure error)) :
    Effect names s (run (fail error : EmitM α) s) := by
  refine .unmoved fun stop hstop => ?_
  cases hstop
  exact h

/-- Nothing is done after a step that fails. -/
theorem effect_fail_bind {error : EmitError} (h : Stops s (.failure error)) (f : α → EmitM β) :
    Effect names s (run (fail error >>= f) s) :=
  (effect_fail h).bind fun _ _ hrun => by cases hrun

theorem effect_contract {x : Except Breach α} (h : s.context.Sound → ∃ a, x = .ok a) :
    Effect names s (run (contract x) s) := by
  cases x with
  | ok a => exact effect_pure a
  | error breach =>
      refine .unmoved fun stop hstop => ?_
      cases hstop
      refine .breach (fun hs => ?_) breach
      obtain ⟨a, ha⟩ := h hs
      cases ha

theorem effect_permitted {x : Except EmitError α}
    (h : ∀ error, x = .error error → Stops s (.failure error)) :
    Effect names s (run (permitted x) s) := by
  cases x with
  | ok a => exact effect_pure a
  | error error => exact effect_fail (h error rfl)

theorem effect_note {record : Record} (h : record.begun? = none) :
    Effect names s (run (note record) s) := by
  have hbegun : begun [record] = [] := List.filterMap_cons_none h
  refine ⟨⟨[record], rfl, ?_, ?_⟩, .refl _, fun _ hstop => by cases hstop⟩
  · rw [hbegun]
    exact .refl _
  · rw [hbegun]
    exact List.nil_subset _

theorem takes_write {k : Sink} {bytes : ByteArray}
    (h : k.room = none → ∃ text : String, bytes = text.toUTF8) : k.Takes (k.write bytes).2 := by
  cases hroom : k.room with
  | none =>
      obtain ⟨text, rfl⟩ := h hroom
      simp only [Sink.write, hroom]
      exact ⟨by simp [hroom], fun _ => ⟨text, rfl⟩⟩
  | some room =>
      simp only [Sink.write, hroom]
      split <;> exact ⟨by simp [hroom], fun hnone => by simp [hroom] at hnone⟩

theorem stops_write {bytes : ByteArray} {error : EmitError}
    (h : (s.sink.write bytes).1 = .error error) : Stops s (.failure error) := by
  cases hroom : s.sink.room with
  | none => simp [Sink.write, hroom] at h
  | some room =>
      simp only [Sink.write, hroom] at h
      split at h
      · cases h
      · cases h
        exact .full (by simp [hroom])

theorem effect_write {bytes : ByteArray}
    (h : s.sink.room = none → ∃ text : String, bytes = text.toUTF8) :
    Effect names s (run (write bytes) s) := by
  rw [run_write_eq]
  cases hwrite : (s.sink.write bytes).1 with
  | ok _ =>
      refine ⟨⟨[], rfl, .refl _, List.nil_subset _⟩, takes_write h, fun stop hstop => ?_⟩
      cases hstop
  | error error =>
      refine ⟨⟨[], rfl, .refl _, List.nil_subset _⟩, takes_write h, fun stop hstop => ?_⟩
      cases hstop
      exact stops_write hwrite

theorem effect_writeText (text : String) : Effect names s (run (writeText text) s) :=
  effect_write fun _ => ⟨text, rfl⟩

theorem effect_instruction (i : Instr) : Effect names s (run (instruction i) s) :=
  effect_writeText i.line

theorem effect_instructions (code : List Instr) : Effect names s (run (instructions code) s) := by
  induction code generalizing s with
  | nil => exact effect_pure ()
  | cons i code ih => exact (effect_instruction i).bind fun _ _ _ => ih

theorem effect_setReturned (h : s.context.insideFunction = true) :
    Effect names s (run setReturned s) := by
  obtain ⟨state, hstate⟩ := Option.isSome_iff_exists.mp h
  rw [run_setReturned hstate]
  exact ⟨⟨[], rfl, .finished _, List.nil_subset _⟩, .refl _, fun _ hstop => by cases hstop⟩

/-! ### Statements -/

theorem effect_constant (value : Int64) : Effect names s (run (constant value) s) := by
  rw [constant, run_bind]
  simp only [run_context]
  split
  · exact effect_fail_bind (.unsupported _) _
  · split
    · exact effect_fail_bind (.unsupported _) _
    · exact effect_instruction _

theorem effect_named (name : String) : Effect names s (run (named name) s) := by
  refine Effect.bind ?_ fun storage s' _ => ?_
  · refine effect_permitted fun error herror => ?_
    rw [Context.resolve] at herror
    split at herror
    · cases herror
    · cases herror
      exact .unbound name
  · cases storage with
    | stack offset =>
        dsimp only
        split
        · exact effect_instruction _
        · exact effect_instructions _
    | register reg => exact effect_instruction _
    | function label => exact effect_fail (.unsupported _)

theorem effect_returnValue (node : Node) : Effect names s (run (returnValue node) s) := by
  cases node with
  | constant value => exact effect_constant value
  | identifier name => exact effect_named name
  | ret | declarator | function | list => exact effect_fail (.unsupported _)

theorem effect_leave (h : s.context.insideFunction = true) : Effect names s (run leave s) := by
  obtain ⟨state, hstate⟩ := Option.isSome_iff_exists.mp h
  rw [leave, run_bind, run_frame hstate]
  dsimp only
  refine Effect.bind_inside h (effect_contract fun hs => (hs state hstate).exists_epilogue)
    fun code s₁ h₁ => ?_
  exact Effect.bind_inside h₁ (effect_instructions code) fun _ _ h₂ => effect_setReturned h₂

theorem effect_returnStatement (expression : Option Node) :
    Effect names s (run (returnStatement expression) s) := by
  rw [returnStatement, run_bind]
  simp only [run_context]
  split
  · exact effect_fail_bind (.unsupported _) _
  · rename_i hinside
    have hinside : s.context.insideFunction = true := by simpa using hinside
    cases expression with
    | none => exact effect_leave hinside
    | some node =>
        exact .bind_inside hinside (effect_returnValue node) fun _ _ h => effect_leave h

theorem effect_requireReachable : Effect names s (run requireReachable s) := by
  refine effect_permitted fun error herror => ?_
  rw [Context.requireReachable] at herror
  split at herror
  · cases herror
    exact .unsupported _
  · cases herror

theorem effect_checkEntry (node : Node) : Effect names s (run (checkEntry node) s) := by
  cases node with
  | ret | function | list => exact effect_pure ()
  | identifier | constant | declarator =>
      rw [checkEntry, run_bind]
      · simp only [run_context]
        split
        · exact effect_fail (.unsupported _)
        · exact effect_fail (.unsupported _)
      all_goals simp

/-! ### Functions -/

variable {name : String} {c : Context} {body : Option Node}

theorem effect_inner (h : s.context.insideFunction = true)
    (hbody : Effect names s (run (Node.emitOption body) s)) :
    Effect names s (run (inner body) s) := by
  refine .bind_inside h hbody fun _ s₁ h₁ => ?_
  rw [run_bind]
  simp only [run_context]
  split
  · exact effect_leave h₁
  · exact effect_pure ()

/-- The journal of a function that is closed names it after all that was begun
inside it. -/
theorem run_closeFunction_of_sound {state : CurrentFunction} {scope : Scope} {outer : List Scope}
    {depth : Nat} {records journal : List Record} (hstate : s.context.function = some state)
    (hinner : s.context.inner = scope :: outer) (hframe : state.frame.Sound)
    (hjournal : s.journal = records ++ .functionBegun name :: .scopeEntered depth :: journal) :
    ∃ records', begun records' = begun records ++ [name] ∧
      run closeFunction s = (.ok state.frame,
        { s with context := s.context.closed outer, journal := records' ++ journal }) := by
  let ended : List Record :=
    [.functionEnded state.name (.ofNat state.frame.size) state.frame.locals state.frame.saved,
      .scopeLeft (outer.length + 1)]
  refine ⟨ended ++ records ++ [.functionBegun name, .scopeEntered depth], ?_, ?_⟩
  · rw [begun_append, begun_append]
    rfl
  · rw [run_closeFunction hstate hinner hframe.total, Session.closed, hjournal,
      List.append_assoc, List.append_assoc]
    rfl

/-- However the body of a function ends, the function is the current one, with a scope of its
own and nothing in its frame. -/
theorem exists_state_of_opening {result : Except (Halt EmitError) α} {s₁ : Session}
    (hopen : s.context.openFunction name = .ok c)
    (h : Effect names (opening s c name) (result, s₁)) :
    ∃ state, s₁.context.function = some state ∧ state.frame = .empty s.context.target ∧
      s₁.context.inner = .empty :: s.context.inner := by
  obtain ⟨-, -, rfl⟩ := Context.openFunction_eq_ok hopen
  obtain ⟨begun, hadvances⟩ := h.advances
  rcases hadvances.function with hsame | hfinished
  · exact ⟨_, hsame, rfl, hadvances.inner⟩
  · exact ⟨_, hfinished, rfl, hadvances.inner⟩

/-- However the body of a function ends, the function can be closed, and then
nothing but its name has changed. -/
theorem exists_run_closeFunction {result : Except (Halt EmitError) α} {s₁ : Session}
    (hopen : s.context.openFunction name = .ok c)
    (h : Effect names (opening s c name) (result, s₁)) :
    ∃ s₂, run closeFunction { s₁ with sink := s.sink } = (.ok (.empty s.context.target), s₂) ∧
      Effect [name] s ((.ok (), s₂) : Except (Halt EmitError) Unit × Session) := by
  obtain ⟨state, hstate, hframe, hinner⟩ := exists_state_of_opening hopen h
  obtain ⟨hfunction, hname, rfl⟩ := Context.openFunction_eq_ok hopen
  obtain ⟨records, hjournal, hadvances, -⟩ := h.context
  have hrecords : begun records = [] := hadvances.outside rfl
  have hsound : state.frame.Sound := hframe ▸ (Frame.Reached.empty _).sound
  obtain ⟨records', hbegun, hclose⟩ := run_closeFunction_of_sound
    (s := { s₁ with sink := s.sink }) hstate hinner hsound hjournal
  rw [hframe] at hclose
  rw [hrecords, List.nil_append] at hbegun
  have hglobals : s.context.globals.Gains [name] s₁.context.globals := by
    simpa [hrecords] using (Scope.Gains.insert hname).trans hadvances.globals
  refine ⟨_, hclose, ⟨records', rfl, ?_, ?_⟩, .refl _, fun _ hstop => by cases hstop⟩
  · rw [hbegun]
    refine ⟨hadvances.target, rfl, hglobals, .inl hfunction.symm, fun hinside => ?_⟩
    rw [Context.insideFunction, hfunction] at hinside
    cases hinside
  · rw [hbegun]
    exact List.Subset.refl _

/-- The body of a function is written to a stream without limit, with a frame of
its own, so that it stops for what it says and for nothing else. -/
theorem stops_of_opening {stop : Halt EmitError} (hopen : s.context.openFunction name = .ok c)
    (h : Stops (opening s c name) stop) : ∃ error, stop = .failure error ∧ ∀ s', Stops s' stop := by
  cases h with
  | unbound name => exact ⟨_, rfl, fun _ => .unbound name⟩
  | redefinition name => exact ⟨_, rfl, fun _ => .redefinition name⟩
  | unsupported construct => exact ⟨_, rfl, fun _ => .unsupported construct⟩
  | full hroom => exact absurd rfl hroom
  | breach hsound breach =>
      obtain ⟨-, -, rfl⟩ := Context.openFunction_eq_ok hopen
      refine absurd (fun state hstate => ?_) hsound
      cases hstate
      exact (Frame.Reached.empty _).sound

/-- Writing down a function whose body is done. -/
theorem effect_written {frame : Frame} (hframe : frame.Sound) (type : TypeSpecifier)
    (name text : String) :
    Effect names s (run (do
      note (.functionEmitted name type (← contract frame.total))
      instruction .code
      instruction (.global name)
      instruction (.label name)
      instructions (← contract frame.prologue)
      write text.toUTF8) s) := by
  refine .bind (effect_contract fun _ => ⟨_, hframe.total⟩) fun _ _ _ => ?_
  refine .bind (effect_note rfl) fun _ _ _ => ?_
  refine .bind (effect_instruction _) fun _ _ _ => ?_
  refine .bind (effect_instruction _) fun _ _ _ => ?_
  refine .bind (effect_instruction _) fun _ _ _ => ?_
  refine .bind (effect_contract fun _ => hframe.exists_prologue) fun _ _ _ => ?_
  exact .bind (effect_instructions _) fun _ _ _ => effect_write fun _ => ⟨text, rfl⟩

theorem effect_function (type : TypeSpecifier)
    (hbody : ∀ s, Effect names s (run (Node.emitOption body) s)) :
    Effect [name] s (run (Node.emit (.function type name body)) s) := by
  rw [emit_function, run_bind]
  cases hopen : s.context.openFunction name with
  | error error =>
      rw [run_openFunction_error hopen]
      refine .unmoved fun stop hstop => ?_
      cases hstop
      rw [Context.openFunction] at hopen
      split at hopen
      · cases hopen
        exact .unsupported _
      · split at hopen
        · cases hopen
          exact .redefinition name
        · cases hopen
  | ok c =>
      have hinner : Effect names (opening s c name) (run (inner body) (opening s c name)) := by
        refine effect_inner ?_ (hbody _)
        obtain ⟨-, -, rfl⟩ := Context.openFunction_eq_ok hopen
        rfl
      rw [run_openFunction hopen]
      dsimp only
      rw [run_bind, run_onto, ← opening]
      generalize run (inner body) (opening s c name) = outcome at hinner ⊢
      obtain ⟨stop | _, s₁⟩ := outcome
      · obtain ⟨error, rfl, hstops⟩ := stops_of_opening hopen (hinner.stops stop rfl)
        obtain ⟨s₂, hclose, heffect⟩ := exists_run_closeFunction hopen hinner
        dsimp only
        rw [run_bind, hclose]
        exact heffect.trans (effect_fail_bind (hstops s₂) _)
      · obtain ⟨s₂, hclose, heffect⟩ := exists_run_closeFunction hopen hinner
        obtain ⟨text, htext⟩ := hinner.sink.text rfl
        have hwritten : s₁.sink.written = text.toUTF8 := htext.trans ByteArray.empty_append
        dsimp only
        rw [run_bind, hclose, hwritten]
        exact heffect.trans (effect_written (Frame.Reached.empty _).sound type name text)

/-! ### Trees -/

mutual

theorem effect_emit (node : Node) (s : Session) : Effect node.defined s (run node.emit s) := by
  cases node with
  | identifier name =>
      rw [Node.emit]
      exact effect_writeText name
  | constant value =>
      rw [Node.emit]
      exact effect_constant value
  | ret expression =>
      rw [Node.emit]
      exact effect_returnStatement expression
  | declarator name =>
      rw [Node.emit]
      exact effect_instruction _
  | function type name body =>
      refine (effect_function type (effect_emitOption body)).mono ?_
      rw [Node.defined]
      exact List.cons_subset_cons name (List.nil_subset _)
  | list entries =>
      rw [Node.emit, Node.defined]
      exact effect_emitEntries entries s

theorem effect_emitOption (body : Option Node) (s : Session) :
    Effect (Node.definedOption body) s (run (Node.emitOption body) s) := by
  cases body with
  | none =>
      rw [Node.emitOption]
      exact effect_pure ()
  | some node =>
      rw [Node.emitOption, Node.definedOption]
      exact effect_emit node s

theorem effect_emitEntries (entries : List (Option Node)) (s : Session) :
    Effect (Node.definedEntries entries) s (run (Node.emitEntries entries) s) := by
  cases entries with
  | nil =>
      rw [Node.emitEntries]
      exact effect_pure ()
  | cons entry rest =>
      cases entry with
      | none =>
          rw [Node.emitEntries, Node.definedEntries]
          exact effect_emitEntries rest s
      | some node =>
          rw [Node.emitEntries, Node.definedEntries, Node.definedOption]
          refine .bind effect_requireReachable fun _ s₁ _ => ?_
          refine .bind (effect_checkEntry node) fun _ s₂ _ => ?_
          refine .bind ((effect_emit node s₂).mono (List.subset_append_left _ _)) fun _ s₃ _ => ?_
          exact (effect_emitEntries rest s₃).mono (List.subset_append_right _ _)

end

theorem run_emit_ne_breach (h : s.context.Sound) (node : Node) (breach : Breach) :
    (run node.emit s).1 ≠ .error (.breach breach) := by
  intro hrun
  cases (effect_emit node s).stops _ hrun with
  | breach hsound => exact hsound h

end Emit

/-- However emission ends, every scope but that of the whole program is as it was,
and that one has gained functions of the tree at most, and none inside a function.
The current function is the same, with its frame and its counts of registers and
labels, except that it may have returned. -/
theorem context_of_run_emit (node : Node) (s : Session) :
    let c := s.context
    let c' := (Emit.run node.emit s).2.context
    c'.target = c.target ∧ c'.inner = c.inner ∧
      (∃ names, c.globals.Gains names c'.globals ∧ names ⊆ node.defined ∧
        (c.insideFunction = true → names = [])) ∧
      (c'.function = c.function ∨ ∃ state, c.function = some state ∧
        c'.function = some { state with returned := true }) := by
  obtain ⟨records, -, h, hbegun⟩ := (Emit.effect_emit node s).context
  refine ⟨h.target, h.inner, ⟨_, h.globals, hbegun, h.outside⟩, ?_⟩
  rcases h.function with hsame | hfinished
  · exact .inl hsame
  · cases hstate : s.context.function with
    | none => exact .inl (by rw [hfinished, Context.finished, hstate]; rfl)
    | some state => exact .inr ⟨state, rfl, by rw [hfinished, Context.finished, hstate]; rfl⟩

/-- A function stays bound when the stream is full before its code is written. -/
example :
    (Emit.run (Node.emit (.function .int "f" none)) ⟨.empty .rv32, .limited 3, []⟩).2.context =
      ⟨.rv32, .insert .empty "f" (.function "f"), [], none⟩ := by
  cbv

end MicroC
