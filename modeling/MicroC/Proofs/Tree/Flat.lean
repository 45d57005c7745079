import MicroC.Proofs.Emission.Separate
import MicroC.Proofs.Tree.RoundTrip

/-!
Trees in flat form: a list of functions, each of which has a list of return statements
as its body. A tree that has code may nest its lists, and may leave a body out or
have a lone return statement in its place. Its text does not show this, so that the
flat form is what is read back, and the flat form has the same code.
-/

namespace MicroC

open Grammar
open Emit

namespace Node

/-! ### Parts -/

mutual

/-- What the lists of a tree hold, in order, however deep they are nested. -/
def parts : Node → List Node
  | list entries => partsEntries entries
  | identifier name => [identifier name]
  | constant value => [constant value]
  | ret expression => [ret expression]
  | declarator name => [declarator name]
  | function type name body => [function type name body]

def partsEntries : List (Option Node) → List Node
  | [] => []
  | none :: rest => partsEntries rest
  | some node :: rest => node.parts ++ partsEntries rest

end

def partsOption : Option Node → List Node
  | none => []
  | some node => node.parts

mutual

theorem kind_of_mem_parts (node : Node) : ∀ part ∈ node.parts, part.kind ≠ .list := by
  cases node with
  | list entries => exact kind_of_mem_partsEntries entries
  | identifier | constant | ret | declarator | function => simp [parts, kind]

theorem kind_of_mem_partsEntries (entries : List (Option Node)) :
    ∀ part ∈ partsEntries entries, part.kind ≠ .list := by
  cases entries with
  | nil => simp [partsEntries]
  | cons entry rest =>
      cases entry with
      | none => exact kind_of_mem_partsEntries rest
      | some node =>
          rw [partsEntries, List.forall_mem_append]
          exact ⟨kind_of_mem_parts node, kind_of_mem_partsEntries rest⟩

end

theorem printEntries_append (entries entries' : List (Option Node)) :
    printEntries (entries ++ entries') = printEntries entries ++ printEntries entries' := by
  induction entries with
  | nil => simp [printEntries]
  | cons entry rest ih => simp [printEntries, ih, String.append_assoc]

mutual

theorem print_parts (node : Node) : printEntries (node.parts.map some) = node.print := by
  cases node with
  | list entries =>
      rw [parts, print]
      exact print_partsEntries entries
  | identifier | constant | ret | declarator | function =>
      simp [parts, printEntries, printOption]

theorem print_partsEntries (entries : List (Option Node)) :
    printEntries ((partsEntries entries).map some) = printEntries entries := by
  cases entries with
  | nil => rfl
  | cons entry rest =>
      cases entry with
      | none =>
          rw [partsEntries, printEntries, printOption, String.empty_append]
          exact print_partsEntries rest
      | some node =>
          rw [partsEntries, printEntries, printOption, List.map_append, printEntries_append,
            print_parts node, print_partsEntries rest]

end

theorem print_partsOption (node : Option Node) :
    printEntries ((partsOption node).map some) = printOption node := by
  cases node with
  | none => rfl
  | some node => exact print_parts node

/-! ### Trees that source text can spell -/

/-- A body is left out, or is a return statement or a list. -/
def IsBody (body : Option Node) : Prop := ∀ node ∈ body, node.kind = .ret ∨ node.kind = .list

mutual

/-- Every name is a name in source text, every constant has a literal, and no body is
an expression or a declarator. -/
def Spellable : Node → Prop
  | identifier name => IsName name
  | constant value => 0 ≤ value.toInt
  | ret expression => SpellableOption expression
  | declarator name => IsName name
  | function _ name body => IsName name ∧ IsBody body ∧ SpellableOption body
  | list entries => SpellableEntries entries

def SpellableOption : Option Node → Prop
  | none => True
  | some node => node.Spellable

def SpellableEntries : List (Option Node) → Prop
  | [] => True
  | entry :: rest => SpellableOption entry ∧ SpellableEntries rest

end

mutual

theorem Spellable.parts {node : Node} (h : node.Spellable) :
    ∀ part ∈ node.parts, part.Spellable := by
  cases node with
  | list entries =>
      rw [Spellable] at h
      exact SpellableEntries.parts h
  | identifier | constant | ret | declarator | function =>
      rw [Node.parts, List.forall_mem_singleton]
      exact h

theorem SpellableEntries.parts {entries : List (Option Node)} (h : SpellableEntries entries) :
    ∀ part ∈ partsEntries entries, part.Spellable := by
  cases entries with
  | nil => simp [partsEntries]
  | cons entry rest =>
      rw [SpellableEntries] at h
      cases entry with
      | none =>
          rw [partsEntries]
          exact SpellableEntries.parts h.2
      | some node =>
          rw [partsEntries, List.forall_mem_append]
          exact ⟨Spellable.parts h.1, SpellableEntries.parts h.2⟩

end

theorem SpellableOption.parts {node : Option Node} (h : SpellableOption node) :
    ∀ part ∈ partsOption node, part.Spellable := by
  cases node with
  | none => simp [partsOption]
  | some node => exact Spellable.parts h

/-- The nodes that may be entries of a list. -/
def IsEntry (node : Node) : Prop :=
  node.kind = .ret ∨ node.kind = .function ∨ node.kind = .list

/-! ### The flat form -/

def function? : Node → Option FunctionNode
  | function type name body => some ⟨type, name, body⟩
  | _ => none

/-- What a return statement returns. -/
def returned? : Node → Option (Option Node)
  | ret expression => some expression
  | _ => none

def functions (root : Node) : List FunctionNode := root.parts.filterMap function?

end Node

namespace FunctionNode

/-- What the return statements of a function return, in order. -/
def returns (f : FunctionNode) : List (Option Node) :=
  (Node.partsOption f.body).filterMap Node.returned?

def flat (f : FunctionNode) : FunctionNode :=
  { f with body := some (.list (f.returns.map fun expression => some (.ret expression))) }

end FunctionNode

/-- The list of the functions of a tree, each with the list of its return statements. -/
def Node.flat (root : Node) : Node := FunctionNode.program (root.functions.map FunctionNode.flat)

/-! ### Emission -/

namespace Emit

variable {s s' : Session}

theorem run_emitEntries_append (entries entries' : List (Option Node)) (s : Session) :
    run (Node.emitEntries (entries ++ entries')) s =
      run (Node.emitEntries entries >>= fun _ => Node.emitEntries entries') s := by
  have happend : Node.emitEntries (entries ++ entries') =
      Node.emitEntries entries >>= fun _ => Node.emitEntries entries' := by
    induction entries with
    | nil => simp [Node.emitEntries]
    | cons entry rest ih =>
        cases entry with
        | none => simpa [Node.emitEntries] using ih
        | some node => simp [Node.emitEntries, ih]
  rw [happend]

theorem isEntry_of_run_checkEntry {node : Node} (hrun : run (checkEntry node) s = (.ok (), s')) :
    node.IsEntry := by
  cases node with
  | ret | function | list => simp [Node.IsEntry, Node.kind]
  | identifier | constant | declarator =>
      simp only [checkEntry, run_bind, run_context] at hrun
      split at hrun <;> simp at hrun

/-- An entry is emitted if it can be reached and is a statement, a function or a list. -/
theorem run_emitEntries_cons_eq_ok {node : Node} {rest : List (Option Node)} :
    run (Node.emitEntries (some node :: rest)) s = (.ok (), s') ↔
      s.context.returned = false ∧ node.IsEntry ∧
        ∃ s₁, run node.emit s = (.ok (), s₁) ∧ run (Node.emitEntries rest) s₁ = (.ok (), s') := by
  rw [Node.emitEntries]
  constructor
  · intro hrun
    obtain ⟨_, s₁, hreach, hrun₁⟩ := run_bind_eq_ok.mp hrun
    obtain ⟨hreturned, rfl⟩ := returned_of_run_requireReachable hreach
    obtain ⟨_, s₂, hcheck, hrun₂⟩ := run_bind_eq_ok.mp hrun₁
    obtain rfl := unmoved_of_run_checkEntry hcheck
    obtain ⟨_, s₃, hnode, hrest⟩ := run_bind_eq_ok.mp hrun₂
    exact ⟨hreturned, isEntry_of_run_checkEntry hcheck, s₃, hnode, hrest⟩
  · rintro ⟨hreturned, hentry, s₁, hnode, hrest⟩
    have hreach := run_requireReachable_of_not_returned hreturned
    have hcheck : run (checkEntry node) s = (.ok (), s) := by
      cases node with
      | ret | function | list => rfl
      | identifier | constant | declarator => simp [Node.IsEntry, Node.kind] at hentry
    refine run_bind_eq_ok.mpr ⟨(), s, hreach, ?_⟩
    refine run_bind_eq_ok.mpr ⟨(), s, hcheck, ?_⟩
    exact run_bind_eq_ok.mpr ⟨(), s₁, hnode, hrest⟩

mutual

/-- A node that is emitted does what its parts do as entries of one list. -/
theorem run_emitEntries_parts (node : Node) {s s' : Session}
    (hreturned : s.context.returned = false) (hentry : node.IsEntry)
    (hrun : run node.emit s = (.ok (), s')) :
    run (Node.emitEntries (node.parts.map some)) s = (.ok (), s') := by
  cases node with
  | list entries =>
      rw [Node.emit] at hrun
      exact run_emitEntries_partsEntries entries hrun
  | ret | function =>
      rw [Node.parts, List.map_singleton]
      exact run_emitEntries_cons_eq_ok.mpr ⟨hreturned, hentry, s', hrun, rfl⟩
  | identifier | constant | declarator => simp [Node.IsEntry, Node.kind] at hentry

theorem run_emitEntries_partsEntries (entries : List (Option Node)) {s s' : Session}
    (hrun : run (Node.emitEntries entries) s = (.ok (), s')) :
    run (Node.emitEntries ((Node.partsEntries entries).map some)) s = (.ok (), s') := by
  cases entries with
  | nil => exact hrun
  | cons entry rest =>
      cases entry with
      | none =>
          rw [Node.emitEntries] at hrun
          exact run_emitEntries_partsEntries rest hrun
      | some node =>
          -- A list is entered only if it can be reached; its entries are then checked again.
          obtain ⟨hreturned, hentry, s₁, hnode, hrest⟩ := run_emitEntries_cons_eq_ok.mp hrun
          rw [Node.partsEntries, List.map_append, run_emitEntries_append]
          exact run_bind_eq_ok.mpr ⟨(), s₁, run_emitEntries_parts node hreturned hentry hnode,
            run_emitEntries_partsEntries rest hrest⟩

end

/-- Outside functions, only functions and lists of them are emitted. -/
theorem exists_functions_of_run {target : RiscV.Target} {nodes : List Node} {names : List String}
    (h : s.context.Between target names) (hroom : s.sink.room = none)
    (hkinds : ∀ node ∈ nodes, node.kind ≠ .list)
    (hrun : run (Node.emitEntries (nodes.map some)) s = (.ok (), s')) :
    ∃ functions : List FunctionNode, nodes = functions.map FunctionNode.node := by
  induction nodes generalizing s names with
  | nil => exact ⟨[], rfl⟩
  | cons node nodes ih =>
      rw [List.forall_mem_cons] at hkinds
      obtain ⟨-, hentry, s₁, hnode, hlater⟩ := run_emitEntries_cons_eq_ok.mp hrun
      cases node with
      | function type name body =>
          let f : FunctionNode := ⟨type, name, body⟩
          obtain ⟨-, -, hbetween, hsink⟩ := f.compiles_of_run h hroom hnode
          obtain ⟨functions, rfl⟩ := ih hbetween (by rw [hsink]; exact hroom) hkinds.2 hlater
          exact ⟨f :: functions, rfl⟩
      | ret expression =>
          have houtside : s.context.insideFunction = false := by
            rw [Context.insideFunction, h.function]
            rfl
          simp [Node.emit, returnStatement, run_bind, houtside] at hnode
      | list entries => exact absurd rfl hkinds.1
      | identifier | constant | declarator => simp [Node.IsEntry, Node.kind] at hentry

/-- Inside a function, only return statements are emitted, of nothing, of a constant or
of a name. -/
theorem exists_returns_of_run {nodes : List Node} (h : s.context.insideFunction = true)
    (hkinds : ∀ node ∈ nodes, node.kind ≠ .list)
    (hrun : run (Node.emitEntries (nodes.map some)) s = (.ok (), s')) :
    ∃ values : List (Option Expression),
      nodes = values.map fun value => .ret (value.map Expression.tree) := by
  induction nodes generalizing s with
  | nil => exact ⟨[], rfl⟩
  | cons node nodes ih =>
      rw [List.forall_mem_cons] at hkinds
      obtain ⟨-, hentry, s₁, hnode, hlater⟩ := run_emitEntries_cons_eq_ok.mp hrun
      have hinside : s₁.context.insideFunction = true := by
        have heffect := (effect_emit node s).insideFunction
        rw [hnode] at heffect
        exact heffect.trans h
      obtain ⟨values, rfl⟩ := ih hinside hkinds.2 hlater
      obtain ⟨state, hstate⟩ := Option.isSome_iff_exists.mp h
      cases node with
      | ret expression =>
          obtain ⟨value, rfl⟩ : ∃ value : Option Expression,
              expression = value.map Expression.tree := by
            cases expression with
            | none => exact ⟨none, rfl⟩
            | some node =>
                cases node with
                | constant value => exact ⟨some (.literal value), rfl⟩
                | identifier name => exact ⟨some (.named name), rfl⟩
                | ret | declarator | function | list =>
                    simp [Node.emit, returnStatement, run_bind, h, returnValue] at hnode
          exact ⟨value :: values, rfl⟩
      | function type name body =>
          have hopen := Context.openFunction_of_function hstate name
          rw [emit_function, run_bind, run_openFunction_error hopen] at hnode
          cases hnode
      | list entries => exact absurd rfl hkinds.1
      | identifier | constant | declarator => simp [Node.IsEntry, Node.kind] at hentry

/-- A body does what its parts do as the entries of a list. -/
theorem run_inner_parts {body : Option Node} (hbody : Node.IsBody body)
    (hreturned : s.context.returned = false) (hrun : run (inner body) s = (.ok (), s')) :
    (∃ s₁, run (Node.emitEntries ((Node.partsOption body).map some)) s = (.ok (), s₁)) ∧
      run (inner (some (.list ((Node.partsOption body).map some)))) s = (.ok (), s') := by
  obtain ⟨_, s₁, hemit, hlast⟩ := run_bind_eq_ok.mp hrun
  have hparts : run (Node.emitEntries ((Node.partsOption body).map some)) s = (.ok (), s₁) := by
    cases body with
    | none => exact hemit
    | some node =>
        have hentry : node.IsEntry := (hbody node rfl).imp_right .inr
        exact run_emitEntries_parts node hreturned hentry hemit
  refine ⟨⟨s₁, hparts⟩, run_bind_eq_ok.mpr ⟨(), s₁, ?_, hlast⟩⟩
  rw [Node.emitOption, Node.emit]
  exact hparts

/-- What is emitted for a function hangs on its body only through a run of it. -/
theorem run_emit_of_run_inner_eq {c : Context} {type : TypeSpecifier} {name : String}
    {body body' : Option Node} (hopen : s.context.openFunction name = .ok c)
    (h : run (inner body) (opening s c name) = run (inner body') (opening s c name)) :
    run (Node.emit (.function type name body)) s =
      run (Node.emit (.function type name body')) s := by
  rw [opening] at h
  simp only [emit_function, run_bind, run_openFunction hopen, run_onto, h]

end Emit

theorem Assembly.exists_run_of_result {target : RiscV.Target} {root : Node} {text : String}
    (h : (ofTree target root).result = .ok text) :
    ∃ s', run root.emit (start target root) = (.ok (), s') := by
  obtain ⟨s', -, hrun, -, -⟩ | ⟨s', stop, -, hstop⟩ := exists_result target root
  · exact ⟨s', hrun⟩
  · rw [hstop] at h
    cases h

/-- The code of a tree hangs only on its kind, which is noted, and on its run. -/
theorem Assembly.ofTree_of_run_eq {target : RiscV.Target} {root root' : Node}
    (hkind : root.kind = root'.kind)
    (h : run root.emit (start target root) = run root'.emit (start target root)) :
    ofTree target root = ofTree target root' := by
  have hstart : start target root' = start target root := by rw [start, start, hkind]
  have halone : ∀ node : Node, emitAlone target node (.ofContext (.empty target)) =
      run node.emit (start target node) := fun _ => rfl
  simp only [ofTree, halone, hstart, h]

namespace FunctionNode

/-- The parts of the body are return statements, of these values. -/
def Returns (f : FunctionNode) (values : List (Option Expression)) : Prop :=
  Node.partsOption f.body = values.map fun value => .ret (value.map Expression.tree)

/-- The definition whose tree is the flat form of a function that returns `values`. -/
def definition (f : FunctionNode) (values : List (Option Expression)) : Definition :=
  ⟨f.name, false, values.map .ret⟩

variable {target : RiscV.Target} {f : FunctionNode} {values : List (Option Expression)}

theorem Returns.flat_eq (h : f.Returns values) :
    f.flat = { f with body := some (.list ((Node.partsOption f.body).map some)) } := by
  rw [Returns] at h
  have hreturns : f.returns = values.map (Option.map Expression.tree) := by
    rw [returns, h]
    simp [List.filterMap_map, Function.comp_def, Node.returned?]
  simp [flat, hreturns, h]

theorem Returns.print_flat (h : f.Returns values) : f.flat.node.print = f.node.print := by
  simp only [h.flat_eq, node, Node.print, Node.printOption, Node.print_partsOption]

theorem Returns.tree_definition (h : f.Returns values) :
    (f.definition values).tree = f.flat.node := by
  rw [h.flat_eq, h]
  cases f.type with
  | int => simp [definition, Definition.tree, blockTree, node, Statement.tree]

theorem plain_definition : (f.definition values).plain = f.definition values := by
  simp [definition, Definition.plain]

theorem spellable_value {value : Option Expression}
    (h : Node.SpellableOption (value.map Expression.tree)) :
    ∀ kind ∈ (Statement.ret value).kinds, kind.Spellable := by
  intro kind hkind
  rcases value with - | value | name
  all_goals
    simp only [Statement.kinds, Statement.valueKinds, Option.map_none, Option.map_some,
      Option.getD_none, Option.getD_some, Expression.kinds, List.mem_cons, List.mem_append,
      List.not_mem_nil, false_or, or_false] at hkind
  · rcases hkind with rfl | rfl <;> trivial
  · rcases hkind with rfl | rfl | rfl
    · trivial
    · exact h
    · trivial
  · rcases hkind with rfl | rfl | rfl
    · trivial
    · exact h
    · trivial

theorem Returns.spellable_definition (h : f.Returns values) (hspellable : f.node.Spellable) :
    ∀ kind ∈ (f.definition values).kinds, kind.Spellable := by
  rw [node, Node.Spellable] at hspellable
  obtain ⟨hname, -, hbody⟩ := hspellable
  have hparts := hbody.parts
  rw [h, List.forall_mem_map] at hparts
  have hvalues : ∀ kind ∈ (values.map Statement.ret).flatMap Statement.kinds, kind.Spellable := by
    simp only [List.mem_flatMap, List.mem_map]
    rintro kind ⟨-, ⟨value, hvalue, rfl⟩, hkind⟩
    exact spellable_value (hparts value hvalue) kind hkind
  have hkinds : (f.definition values).kinds = [.keywordInt, .identifier f.name, .leftParen,
      .rightParen, .leftBrace] ++ (values.map Statement.ret).flatMap Statement.kinds ++
      [.rightBrace] := by
    simp [definition, Definition.kinds, Definition.parameterKinds, blockKinds]
  rw [hkinds]
  simp only [List.forall_mem_append, List.forall_mem_cons]
  exact ⟨⟨⟨trivial, hname, trivial, trivial, trivial, by simp⟩, hvalues⟩, trivial, by simp⟩

/-- A function that compiles returns values of the grammar, and its flat form has its
code. -/
theorem Compiles.exists_returns (hf : f.Compiles target) (hbody : Node.IsBody f.body) :
    ∃ values, f.Returns values ∧
      Assembly.ofTree target f.flat.node = Assembly.ofTree target f.node := by
  obtain ⟨s', hrun⟩ := Assembly.exists_run_of_result hf
  obtain ⟨c, s₁, hopen, hinner⟩ := run_inner_of_run_emit hrun
  obtain ⟨-, -, rfl⟩ := Context.openFunction_eq_ok hopen
  obtain ⟨⟨s₂, hparts⟩, hlist⟩ := run_inner_parts hbody rfl hinner
  have hkinds : ∀ node ∈ Node.partsOption f.body, node.kind ≠ .list := by
    cases f.body with
    | none => simp [Node.partsOption]
    | some node => exact node.kind_of_mem_parts
  obtain ⟨values, hvalues⟩ := exists_returns_of_run rfl hkinds hparts
  have hreturns : f.Returns values := hvalues
  refine ⟨values, hreturns, Assembly.ofTree_of_run_eq rfl ?_⟩
  rw [hreturns.flat_eq]
  exact run_emit_of_run_inner_eq hopen (hlist.trans hinner.symm)

/-- The code of a function has at least its directives. -/
theorem Compiles.text_ne_empty (hf : f.Compiles target) : f.text target ≠ "" := by
  obtain ⟨s', hrun⟩ := Assembly.exists_run_of_result hf
  obtain ⟨-, load, -, hsink⟩ := written_of_run_emit rfl hrun
  obtain ⟨-, htext⟩ := compiles_of_result (Assembly.result_of_run hrun hsink)
  rw [htext]
  simp [RiscV.listing, RiscV.Instr.line]

/-! ### Lists of functions -/

variable {functions : List FunctionNode}

/-- The flat forms of functions are the tree of a program in plainest form. -/
theorem exists_program (hreturns : ∀ f ∈ functions, ∃ values, f.Returns values)
    (hspellable : ∀ f ∈ functions, f.node.Spellable) :
    ∃ p : Program, p.tree = program (functions.map flat) ∧ p.plain = p ∧
      p.length = functions.length ∧ ∀ kind ∈ p.kinds, kind.Spellable := by
  induction functions with
  | nil => exact ⟨[], rfl, rfl, rfl, List.forall_mem_nil _⟩
  | cons f functions ih =>
      rw [List.forall_mem_cons] at hreturns hspellable
      obtain ⟨p, htree, hplain, hlength, hkinds⟩ := ih hreturns.2 hspellable.2
      obtain ⟨values, hvalues⟩ := hreturns.1
      refine ⟨f.definition values :: p, ?_, ?_, ?_, ?_⟩
      · simp only [Program.tree, program, List.map_cons, hvalues.tree_definition] at htree ⊢
        rw [Node.list.inj htree]
      · rw [Program.plain] at hplain ⊢
        rw [List.map_cons, plain_definition, hplain]
      · rw [List.length_cons, List.length_cons, hlength]
      · rw [Program.kinds, List.flatMap_cons, List.forall_mem_append]
        exact ⟨hvalues.spellable_definition hspellable.1, hkinds⟩

theorem print_program_flat (hreturns : ∀ f ∈ functions, ∃ values, f.Returns values) :
    (program (functions.map flat)).print = (program functions).print := by
  induction functions with
  | nil => rfl
  | cons f functions ih =>
      rw [List.forall_mem_cons] at hreturns
      obtain ⟨values, hvalues⟩ := hreturns.1
      have hlater := ih hreturns.2
      simp only [program, List.map_cons, Node.print, Node.printEntries, Node.printOption]
        at hlater ⊢
      rw [hlater, hvalues.print_flat]

/-- If the flat form of each function has its code, the flat forms together have the
code of the program. -/
theorem result_program_flat {text : String}
    (hcode : ∀ f ∈ functions, Assembly.ofTree target f.flat.node = Assembly.ofTree target f.node)
    (hresult : (Assembly.ofTree target (program functions)).result = .ok text) :
    (Assembly.ofTree target (program (functions.map flat))).result = .ok text := by
  obtain ⟨hnodup, hcompiles, rfl⟩ := result_program_iff.mp hresult
  have htext : ∀ f ∈ functions, f.flat.text target = f.text target := by
    intro f hf
    rw [FunctionNode.text, FunctionNode.text, hcode f hf]
  refine result_program_iff.mpr ⟨?_, ?_, ?_⟩
  · rw [List.map_map]
    exact hnodup
  · rw [List.forall_mem_map]
    intro f hf
    rw [Compiles, hcode f hf, htext f hf]
    exact hcompiles f hf
  · rw [List.map_map]
    exact congrArg String.join (List.map_congr_left htext).symm

end FunctionNode

open FunctionNode (program)

/-! ### Whole trees -/

namespace Node

variable {target : RiscV.Target} {root : Node} {asm : String}

/-- A function or a list that has code is made of functions, which have that code as
a program. -/
theorem parts_of_result (hkind : root.kind = .function ∨ root.kind = .list)
    (hasm : (Assembly.ofTree target root).result = .ok asm) :
    root.parts = root.functions.map FunctionNode.node ∧
      (Assembly.ofTree target (program root.functions)).result = .ok asm := by
  obtain ⟨s', hrun⟩ := Assembly.exists_run_of_result hasm
  have hstart := Assembly.between_start target root
  have hparts := run_emitEntries_parts root rfl (.inr hkind) hrun
  obtain ⟨functions, hfunctions⟩ :=
    exists_functions_of_run hstart rfl root.kind_of_mem_parts hparts
  have hsame : root.functions = functions := by
    rw [Node.functions, hfunctions]
    simp [List.filterMap_map, Function.comp_def, FunctionNode.node, function?]
  rw [hsame]
  rw [hfunctions, List.map_map] at hparts
  obtain ⟨hnodup, hcompiles, hsink⟩ :=
    FunctionNode.compiles_of_run_emitEntries hstart rfl hparts
  refine ⟨hfunctions, FunctionNode.result_program_iff.mpr
    ⟨hnodup, fun f hf => (hcompiles f hf).2, ?_⟩⟩
  rw [Assembly.result_of_run hrun hsink] at hasm
  exact (Except.ok.inj hasm).symm

/-- Only a tree without functions has no code to write. -/
theorem eq_empty_iff_of_result (hkind : root.kind = .function ∨ root.kind = .list)
    (hasm : (Assembly.ofTree target root).result = .ok asm) : asm = "" ↔ root.functions = [] := by
  obtain ⟨-, hcompiles, rfl⟩ := FunctionNode.result_program_iff.mp (parts_of_result hkind hasm).2
  cases hfunctions : root.functions with
  | nil => exact ⟨fun _ => rfl, fun _ => rfl⟩
  | cons f functions =>
      have hf := (hcompiles f (hfunctions ▸ List.mem_cons_self)).text_ne_empty
      simp [hf]

end Node

/-- A function, or a list of functions nested to any depth, that has code is printed as
a text that reads back as its flat form, and the flat form has the same code. -/
theorem readProgram_print_flat {target : RiscV.Target} {root : Node} {asm : String}
    (hkind : root.kind = .function ∨ root.kind = .list) (hspellable : root.Spellable)
    (hasm : (Assembly.ofTree target root).result = .ok asm) (hne : asm ≠ "")
    (hprint : root.print.length < 2 ^ 32 - 1) :
    (∀ file, (readProgram file root.print).1 = .ok root.flat) ∧
      (Assembly.ofTree target root.flat).result = .ok asm := by
  obtain ⟨hparts, hresult⟩ := Node.parts_of_result hkind hasm
  obtain ⟨-, hcompiles, -⟩ := FunctionNode.result_program_iff.mp hresult
  have hfunctions : ∀ f ∈ root.functions, f.node.Spellable := by
    have hall := hspellable.parts
    rwa [hparts, List.forall_mem_map] at hall
  have hflat : ∀ f ∈ root.functions, ∃ values, f.Returns values ∧
      Assembly.ofTree target f.flat.node = Assembly.ofTree target f.node :=
    fun f hf => (hcompiles f hf).exists_returns (hfunctions f hf).2.1
  have hreturns : ∀ f ∈ root.functions, ∃ values, f.Returns values :=
    fun f hf => (hflat f hf).imp fun _ h => h.1
  have hcode : ∀ f ∈ root.functions,
      Assembly.ofTree target f.flat.node = Assembly.ofTree target f.node := by
    intro f hf
    obtain ⟨-, -, hsame⟩ := hflat f hf
    exact hsame
  refine ⟨fun file => ?_, FunctionNode.result_program_flat hcode hresult⟩
  obtain ⟨p, htree, hplain, hlength, hkinds⟩ := FunctionNode.exists_program hreturns hfunctions
  have hsame : p.tree.print = root.print := by
    rw [htree, FunctionNode.print_program_flat hreturns, ← root.print_parts, hparts, List.map_map]
    rfl
  have hp : p ≠ [] := by
    rintro rfl
    apply hne
    rw [Node.eq_empty_iff_of_result hkind hasm, ← List.length_eq_zero_iff, ← hlength]
    rfl
  have hspells := spells_print_program hkinds
  rw [hplain, hsame] at hspells
  rw [Node.flat, ← htree]
  exact readProgram_of_spells file hprint hp hspells

/-- Three functions in nested lists, of which one has a lone return statement as its
body, one has none, and one has a list in a list. -/
theorem readProgram_print_flat_nested :
    let root : Node := .list [none, some (.list [
      some (.function .int "f" (some (.ret (some (.constant 7))))), none,
      some (.list [some (.function .int "g" none)])]),
      some (.function .int "h" (some (.list [some (.list [none, some (.ret none)]), none])))]
    ∃ asm, (Assembly.ofTree .rv32 root).result = .ok asm ∧
      (readProgram "a.c" root.print).1 = .ok (.list [
        some (.function .int "f" (some (.list [some (.ret (some (.constant 7)))]))),
        some (.function .int "g" (some (.list []))),
        some (.function .int "h" (some (.list [some (.ret none)])))]) ∧
      (Assembly.ofTree .rv32 root.flat).result = .ok asm := by
  intro root
  have hkind : root.kind = .function ∨ root.kind = .list := .inr rfl
  have hspellable : root.Spellable := by
    simp [root, Node.Spellable, Node.SpellableEntries, Node.SpellableOption, Node.IsBody, Node.kind]
    decide
  obtain ⟨asm, hasm⟩ : ∃ asm, (Assembly.ofTree .rv32 root).result = .ok asm :=
    Assembly.exists_text_of_run (by decide +kernel)
  have hne : asm ≠ "" := by
    rw [Ne, Node.eq_empty_iff_of_result hkind hasm]
    exact List.cons_ne_nil _ _
  have hprint : root.print.length < 2 ^ 32 - 1 := by cbv
  obtain ⟨hread, hcode⟩ := readProgram_print_flat hkind hspellable hasm hne hprint
  exact ⟨asm, hasm, hread "a.c", hcode⟩

end MicroC
