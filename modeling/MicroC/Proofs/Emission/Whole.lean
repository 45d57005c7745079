import MicroC.Proofs.Tree.Flat

/-!
What reaches the stream when emission fails. The body of a function is emitted to a stream
of its own and its code is written down only when the body is done, so a function that fails
leaves nothing. Between functions nothing else is written, so a program that fails leaves the
functions before the one at fault, whole.
-/

namespace MicroC

open RiscV
open Emit

namespace Emit

variable {s s' : Session} {stop : Halt EmitError}

/-! ### The entry at fault -/

theorem emitEntries_reduceOption (entries : List (Option Node)) :
    Node.emitEntries (entries.reduceOption.map some) = Node.emitEntries entries := by
  induction entries with
  | nil => rfl
  | cons entry rest ih =>
      cases entry with
      | none => rw [List.reduceOption_cons_of_none, ih, Node.emitEntries]
      | some node =>
          rw [List.reduceOption_cons_of_some, List.map_cons, Node.emitEntries, Node.emitEntries, ih]

/-- Emission of nodes stops at `nodes[k]`, once those before it are emitted. -/
structure StopsAt (nodes : List Node) (s : Session) (k : Nat) (node : Node) (s₁ : Session)
    (stop : Halt EmitError) (s' : Session) : Prop where
  entry : nodes[k]? = some node
  before : run (Node.emitEntries ((nodes.take k).map some)) s = (.ok (), s₁)
  fails : run (Node.emitEntries [some node]) s₁ = (.error stop, s')

theorem exists_stopsAt {nodes : List Node}
    (hrun : run (Node.emitEntries (nodes.map some)) s = (.error stop, s')) :
    ∃ k node s₁, StopsAt nodes s k node s₁ stop s' := by
  induction nodes generalizing s with
  | nil => cases hrun
  | cons node nodes ih =>
      have hsplit : (node :: nodes).map some = [some node] ++ nodes.map some := rfl
      rw [hsplit, run_emitEntries_append, run_bind] at hrun
      rcases hfirst : run (Node.emitEntries [some node]) s with ⟨result, s₁⟩
      rw [hfirst] at hrun
      cases result with
      | error stop' =>
          cases hrun
          exact ⟨0, node, s, rfl, rfl, hfirst⟩
      | ok u =>
          obtain ⟨k, node', s₂, hentry, hbefore, hfails⟩ := ih hrun
          refine ⟨k + 1, node', s₂, hentry, ?_, hfails⟩
          have htake : ((node :: nodes).take (k + 1)).map some =
              [some node] ++ (nodes.take k).map some := rfl
          rw [htake, run_emitEntries_append]
          exact run_bind_eq_ok.mpr ⟨u, s₁, hfirst, hbefore⟩

/-- Nodes that are emitted are emitted up to any of them. -/
theorem exists_run_take {nodes : List Node} {k k' : Nat} (hk : k ≤ k')
    (hrun : run (Node.emitEntries ((nodes.take k').map some)) s = (.ok (), s')) :
    ∃ s₁, run (Node.emitEntries ((nodes.take k).map some)) s = (.ok (), s₁) := by
  have hsplit := List.take_append_drop k (nodes.take k')
  rw [List.take_take, Nat.min_eq_left hk] at hsplit
  rw [← hsplit, List.map_append, run_emitEntries_append] at hrun
  obtain ⟨_, s₁, hfirst, -⟩ := run_bind_eq_ok.mp hrun
  exact ⟨s₁, hfirst⟩

namespace StopsAt

variable {nodes : List Node} {k k' : Nat} {node node' : Node} {s₁ s₂ s₂' : Session}
  {stop' : Halt EmitError}

theorem run_take (h : StopsAt nodes s k node s₁ stop s') :
    run (Node.emitEntries ((nodes.take (k + 1)).map some)) s = (.error stop, s') := by
  rw [List.take_add_one, h.entry, Option.toList_some, List.map_append, run_emitEntries_append,
    run_bind, h.before]
  exact h.fails

/-- Emission does not get beyond the node at which it stops. -/
theorem le (h : StopsAt nodes s k node s₁ stop s') (h' : StopsAt nodes s k' node' s₂ stop' s₂') :
    k' ≤ k := by
  by_contra hlt
  obtain ⟨s₃, hrun⟩ := exists_run_take (by omega : k + 1 ≤ k') h'.before
  rw [h.run_take] at hrun
  cases hrun

theorem unique (h : StopsAt nodes s k node s₁ stop s')
    (h' : StopsAt nodes s k' node' s₂ stop' s₂') : k' = k :=
  Nat.le_antisymm (h.le h') (h'.le h)

end StopsAt

/-! ### What is left of it -/

/-- A function that fails leaves nothing on the stream, however far its body was emitted. -/
theorem sink_of_run_function_error {type : TypeSpecifier} {name : String} {body : Option Node}
    (hroom : s.sink.room = none)
    (hrun : run (Node.emit (.function type name body)) s = (.error stop, s')) :
    s'.sink = s.sink := by
  cases hopen : s.context.openFunction name with
  | error error =>
      rw [emit_function, run_bind, run_openFunction_error hopen] at hrun
      cases hrun
      rfl
  | ok c =>
      have hinside : (opening s c name).context.insideFunction = true := by
        obtain ⟨-, -, rfl⟩ := Context.openFunction_eq_ok hopen
        rfl
      have heffect := effect_inner hinside (effect_emitOption body (opening s c name))
      have hsound : (Frame.empty s.context.target).Sound := (Frame.Reached.empty _).sound
      rcases hinner : run (inner body) (opening s c name) with ⟨result, s₁⟩
      rw [hinner] at heffect
      obtain ⟨state, hstate, hframe, hscopes⟩ := exists_state_of_opening hopen heffect
      rw [← hframe] at hsound
      cases result with
      | error stop' =>
          obtain ⟨error, rfl, -⟩ := stops_of_opening hopen (heffect.stops stop' rfl)
          obtain ⟨journal, hemit⟩ : ∃ journal, run (Node.emit (.function type name body)) s =
              (.error (.failure error), ⟨s₁.context.closed s.context.inner, s.sink, journal⟩) :=
            run_emit_function_error hopen hinner hstate hscopes hsound.total
          rw [hemit] at hrun
          cases hrun
          rfl
      | ok u =>
          obtain ⟨prologue, hprologue⟩ := hsound.exists_prologue
          obtain ⟨s₂, hemit⟩ : ∃ s₂, run (Node.emit (.function type name body)) s = (.ok (), s₂) := by
            obtain ⟨journal, hemit⟩ := run_emit_function_ok hroom hopen hinner hstate hscopes
              hsound.total hprologue
            exact ⟨_, hemit⟩
          rw [hemit] at hrun
          cases hrun

/-- Outside functions, what is no list leaves nothing on the stream if it fails. -/
theorem sink_of_run_entry_error {node : Node} (houtside : s.context.insideFunction = false)
    (hroom : s.sink.room = none) (hkind : node.kind ≠ .list)
    (hrun : run (Node.emitEntries [some node]) s = (.error stop, s')) : s'.sink = s.sink := by
  have hfunction : s.context.function = none := by
    simpa [Context.insideFunction] using houtside
  have hreach := run_requireReachable_of_not_returned (Context.returned_of_outside hfunction)
  rw [Node.emitEntries, run_bind, hreach] at hrun
  dsimp only at hrun
  rw [run_bind] at hrun
  cases node with
  | function type name body =>
      have hcheck : run (checkEntry (.function type name body)) s = (.ok (), s) := rfl
      rw [hcheck] at hrun
      dsimp only at hrun
      rw [run_bind] at hrun
      rcases hemit : run (Node.emit (.function type name body)) s with ⟨result, s₁⟩
      rw [hemit] at hrun
      cases result with
      | error stop' =>
          cases hrun
          exact sink_of_run_function_error hroom hemit
      | ok u => cases hrun
  | ret expression =>
      have hcheck : run (checkEntry (.ret expression)) s = (.ok (), s) := rfl
      have hemit : run (Node.emit (.ret expression)) s =
          (.error (.failure (.unsupported .returnOutside)), s) := by
        simp [Node.emit, returnStatement, run_bind, houtside]
      rw [hcheck] at hrun
      dsimp only at hrun
      rw [run_bind, hemit] at hrun
      cases hrun
      rfl
  | list entries => exact absurd rfl hkind
  | identifier | constant | declarator =>
      simp only [checkEntry, run_bind, run_context, houtside, Bool.false_eq_true, if_false,
        run_fail] at hrun
      cases hrun
      rfl

/-- From the start on, nodes that are emitted leave the code that they have as a program. -/
theorem exists_text_of_run_emitEntries {target : Target} {nodes : List Node}
    (h : s.context.Between target []) (hroom : s.sink.room = none)
    (hkinds : ∀ node ∈ nodes, node.kind ≠ .list)
    (hrun : run (Node.emitEntries (nodes.map some)) s = (.ok (), s')) :
    ∃ text, (Assembly.ofTree target (.list (nodes.map some))).result = .ok text ∧
      s'.sink = (s.wrote text).sink := by
  obtain ⟨functions, rfl⟩ := exists_functions_of_run h hroom hkinds hrun
  rw [List.map_map] at hrun ⊢
  obtain ⟨hnodup, hcompiles, hsink⟩ := FunctionNode.compiles_of_run_emitEntries h hroom hrun
  have hresult := FunctionNode.result_program_iff.mpr
    ⟨hnodup, fun f hf => (hcompiles f hf).2, rfl⟩
  exact ⟨_, hresult, hsink⟩

theorem StopsAt.exists_text {target : Target} {nodes : List Node} {k : Nat} {node : Node}
    {s₁ : Session} (h : StopsAt nodes s k node s₁ stop s') (hbetween : s.context.Between target [])
    (hroom : s.sink.room = none) (hkinds : ∀ node ∈ nodes, node.kind ≠ .list) :
    ∃ text, (Assembly.ofTree target (.list ((nodes.take k).map some))).result = .ok text ∧
      s₁.sink = (s.wrote text).sink ∧ s'.sink = s₁.sink := by
  obtain ⟨text, hresult, hsink⟩ := exists_text_of_run_emitEntries hbetween hroom
    (fun node hnode => hkinds node (List.mem_of_mem_take hnode)) h.before
  have houtside : s₁.context.insideFunction = false := by
    have heffect := effect_emitEntries ((nodes.take k).map some) s
    rw [h.before] at heffect
    rw [heffect.insideFunction, Context.insideFunction, hbetween.function]
    rfl
  have hroom₁ : s₁.sink.room = none := by rw [hsink]; exact hroom
  have hkind := hkinds node (List.mem_of_getElem? h.entry)
  exact ⟨text, hresult, hsink, sink_of_run_entry_error houtside hroom₁ hkind h.fails⟩

end Emit

/-- If the emission of a list without lists among its entries fails, it fails at one of those that
are present. Those before it have code as a program of their own, and that code is what was
written: the entry at fault adds nothing, however far it was emitted. -/
theorem failure_leaves_whole_functions {target : Target} {entries : List (Option Node)}
    {s s' : Session} {stop : Halt EmitError}
    (hkinds : ∀ node, some node ∈ entries → node.kind ≠ .list) (hroom : s.sink.room = none)
    (hrun : run (emitAlone target (.list entries)) s = (.error stop, s')) :
    ∃! k, ∃ node s₁ text, entries.reduceOption[k]? = some node ∧
      run (emitAlone target (.list ((entries.reduceOption.take k).map some))) s = (.ok (), s₁) ∧
      run (Node.emitEntries [some node]) s₁ = (.error stop, s') ∧
      (Assembly.ofTree target (.list ((entries.reduceOption.take k).map some))).result =
        .ok text ∧
      s₁.sink.written = s.sink.written ++ text.toUTF8 ∧ s'.sink = s₁.sink := by
  let s₀ : Session := ⟨.empty target, s.sink, .emitting .list target :: s.journal⟩
  have halone : ∀ entries, run (emitAlone target (.list entries)) s =
      run (Node.emitEntries entries) s₀ := by
    intro entries
    rw [emitAlone, Node.emit]
    rfl
  have hstart : s₀.context.Between target [] := ⟨rfl, rfl, fun _ => rfl, rfl⟩
  have hpresent : ∀ node ∈ entries.reduceOption, node.kind ≠ .list := fun node hnode =>
    hkinds node (List.reduceOption_mem_iff.mp hnode)
  rw [halone, ← emitEntries_reduceOption] at hrun
  simp only [halone]
  obtain ⟨k, node, s₁, hstops⟩ := exists_stopsAt hrun
  obtain ⟨text, hresult, hsink, hsame⟩ := hstops.exists_text hstart hroom hpresent
  refine ⟨k, ⟨node, s₁, text, hstops.entry, hstops.before, hstops.fails, hresult, ?_, hsame⟩, ?_⟩
  · rw [hsink]
    rfl
  · rintro k' ⟨node', s₂, -, hentry, hbefore, hfails, -⟩
    exact hstops.unique ⟨hentry, hbefore, hfails⟩

/-- The second function fails after its first return statement, and the third is not reached. -/
theorem failure_leaves_whole_functions_after_return :
    let f : Node := .function .int "f" (some (.ret (some (.constant 1))))
    let g : Node := .function .int "g" (some (.list [some (.ret none), none, some (.ret none)]))
    let entries := [none, some f, none, some g, some (.declarator "h")]
    let s : Session := .ofContext (.empty .rv64)
    (∀ node, some node ∈ entries → node.kind ≠ .list) ∧ s.sink.room = none ∧
      ∃ s', run (emitAlone .rv32 (.list entries)) s =
          (.error (.failure (.unsupported .afterReturn)), s') ∧
        ∃ text, (Assembly.ofTree .rv32 (.list [some f])).result = .ok text ∧
          s'.sink.written = text.toUTF8 := by
  intro f g entries s
  have hkinds : ∀ node, some node ∈ entries → node.kind ≠ .list := by
    simp [entries, f, g, Node.kind]
  have hstop : (run (emitAlone .rv32 (.list entries)) s).1 =
      .error (.failure (.unsupported .afterReturn)) := by decide +kernel
  rcases hrun : run (emitAlone .rv32 (.list entries)) s with ⟨result, s'⟩
  obtain rfl : result = .error (.failure (.unsupported .afterReturn)) := by rw [← hstop, hrun]
  obtain ⟨k, ⟨node, s₁, text, hentry, hbefore, hfails, hresult, hwritten, hsame⟩, -⟩ :=
    failure_leaves_whole_functions hkinds rfl hrun
  refine ⟨hkinds, rfl, s', rfl, text, ?_, ?_⟩
  · rcases k with - | - | - | k
    · obtain rfl : f = node := Option.some.inj hentry
      obtain rfl : Assembly.start .rv32 (.list entries) = s₁ := congrArg Prod.snd hbefore
      have hok : (run (Node.emitEntries [some f]) (Assembly.start .rv32 (.list entries))).1 =
          .ok () := by decide +kernel
      rw [hfails] at hok
      cases hok
    · exact hresult
    · have hfail : (run (emitAlone .rv32 (.list [some f, some g])) s).1 =
          .error (.failure (.unsupported .afterReturn)) := by decide +kernel
      have hok := congrArg Prod.fst hbefore
      cases hfail.symm.trans hok
    · cases hentry
  · rw [hsame, hwritten]
    exact ByteArray.empty_append

end MicroC
