import MicroC.Compiler
import MicroC.Proofs.Emission.Function

/-!
Which programs are compiled, into what, and what is said about the others. The
functions are compiled in order, and the first one that is refused decides.
-/

namespace MicroC

open RiscV
open Emit

namespace Grammar.Program

open Definition (fault_eq_none)

/-- The programs that have code. -/
structure Accepted (p : Program) : Prop where
  distinct : (p.map Definition.name).Nodup
  supported : ∀ d ∈ p, d.Supported

theorem accepted_iff {p : Program} :
    p.Accepted ↔ (p.map Definition.name).Nodup ∧ ∀ d ∈ p, d.Supported :=
  ⟨fun h => ⟨h.distinct, h.supported⟩, fun h => ⟨h.1, h.2⟩⟩

def code (target : Target) (p : Program) : List Instr := p.flatMap (Definition.code target)

theorem code_cons (target : Target) (d : Definition) (p : Program) :
    code target (d :: p) = d.code target ++ code target p := List.flatMap_cons

/-- The fault of the first function that has one, where the functions `earlier`
precede the program. -/
def faultAfter (earlier : List String) : Program → Option EmitError
  | [] => none
  | d :: p =>
      match d.fault earlier with
      | some error => some error
      | none => faultAfter (earlier ++ [d.name]) p

/-- What comes of a program that would give `a` if it had no fault. -/
def outcome {α : Type} (fault : Option EmitError) (a : α) : Except (Halt EmitError) α :=
  match fault with
  | some error => .error (.failure error)
  | none => .ok a

theorem outcome_eq_ok {α : Type} {fault : Option EmitError} {a b : α} :
    outcome fault a = .ok b ↔ fault = none ∧ a = b := by
  cases fault <;> simp [outcome]

theorem faultAfter_eq_none {earlier : List String} {p : Program} :
    faultAfter earlier p = none ↔ (∀ d ∈ p, d.name ∉ earlier) ∧ p.Accepted := by
  induction p generalizing earlier with
  | nil => simp [faultAfter, accepted_iff]
  | cons d p ih =>
      rw [faultAfter, accepted_iff]
      cases hfault : d.fault earlier with
      | some error =>
          have hd : ¬(d.name ∉ earlier ∧ d.Supported) := fun h =>
            Option.some_ne_none error (hfault.symm.trans (fault_eq_none.mpr h))
          simp only [reduceCtorEq, List.forall_mem_cons, false_iff]
          rintro ⟨⟨hname, -⟩, -, hsupported, -⟩
          exact hd ⟨hname, hsupported⟩
      | none =>
          obtain ⟨hname, hsupported⟩ := fault_eq_none.mp hfault
          simp only [ih, accepted_iff, List.map_cons, List.nodup_cons, List.forall_mem_cons, hname,
            hsupported, List.mem_append, List.mem_singleton, not_or, List.mem_map, true_and,
            not_false_eq_true, not_exists, not_and]
          grind

theorem exists_fault_of_faultAfter {earlier : List String} {p : Program} {error : EmitError}
    (h : faultAfter earlier p = some error) :
    ∃ before d after, p = before ++ d :: after ∧ faultAfter earlier before = none ∧
      d.fault (earlier ++ before.map Definition.name) = some error := by
  induction p generalizing earlier with
  | nil => cases h
  | cons d p ih =>
      rw [faultAfter] at h
      cases hfault : d.fault earlier with
      | some error' =>
          rw [hfault] at h
          exact ⟨[], d, p, rfl, rfl, by simpa using hfault.trans h⟩
      | none =>
          rw [hfault] at h
          obtain ⟨before, d', after, rfl, hbefore, hd'⟩ := ih h
          refine ⟨d :: before, d', after, rfl, ?_, ?_⟩
          · rw [faultAfter, hfault]
            exact hbefore
          · simpa using hd'

end Grammar.Program

open Grammar

namespace Emit

/-- The functions of a program are emitted up to the first one with a fault. -/
theorem run_emitEntries_program {s : Session} {target : Target} {earlier : List String}
    {p : Program} (h : s.context.Between target earlier) (hroom : s.sink.room = none)
    (hp : ∀ kind ∈ p.kinds, kind.Spellable) :
    ∃ s', run (Node.emitEntries (p.map fun d => some d.tree)) s =
        (Program.outcome (p.faultAfter earlier) (), s') ∧
      (p.faultAfter earlier = none → s'.sink = (s.wrote (listing (p.code target))).sink) := by
  induction p generalizing s earlier with
  | nil =>
      refine ⟨s, rfl, fun _ => ?_⟩
      rw [Program.code, List.flatMap_nil, listing, Session.wrote_empty]
  | cons d p ih =>
      simp only [Program.kinds, List.flatMap_cons, List.mem_append] at hp
      have hd : ∀ kind ∈ d.kinds, kind.Spellable := fun kind hkind => hp kind (.inl hkind)
      have hreach := run_requireReachable_of_not_returned (Context.returned_of_outside h.function)
      have hcheck : checkEntry d.tree = pure () := rfl
      simp only [List.map_cons, Node.emitEntries, run_bind, hreach, hcheck, run_pure,
        Program.faultAfter]
      cases hfault : d.fault earlier with
      | some error =>
          obtain ⟨s', hrun⟩ := run_emit_of_fault h hd hfault
          exact ⟨s', by rw [hrun]; rfl, fun h => absurd h (Option.some_ne_none error)⟩
      | none =>
          obtain ⟨s₁, hrun, hbetween, hsink⟩ := run_emit_of_supported h hroom hd hfault
          -- Names are bound in the order opposite to that of the program.
          have hbetween' : s₁.context.Between target (earlier ++ [d.name]) :=
            hbetween.congr fun name => by simp [or_comm]
          obtain ⟨s', hrun', hsink'⟩ := ih hbetween' (by rw [hsink]; exact hroom)
            fun kind hkind => hp kind (.inr hkind)
          refine ⟨s', by rw [hrun]; exact hrun', fun hnone => ?_⟩
          rw [hsink' hnone, Program.code_cons, listing_append, ← Session.wrote_wrote]
          simp only [Session.wrote, hsink]

end Emit

/-- What is made of the functions of a program that was read. -/
theorem Assembly.ofTree_program (target : Target) {p : Program}
    (hp : ∀ kind ∈ p.kinds, kind.Spellable) :
    (Assembly.ofTree target p.tree).result =
      Program.outcome (p.faultAfter []) (listing (p.code target)) := by
  let s : Session := ⟨.empty target, .unlimited, [.emitting p.tree.kind target]⟩
  have hbetween : s.context.Between target [] := ⟨rfl, rfl, fun _ => rfl, rfl⟩
  obtain ⟨s', hrun, hsink⟩ := run_emitEntries_program hbetween rfl hp
  have halone : run (emitAlone target p.tree) (.ofContext (.empty target)) = _ := hrun
  rw [run] at halone
  simp only [ofTree, halone]
  cases hfault : p.faultAfter [] with
  | some error => rfl
  | none =>
      have hbytes : s'.sink.written = (listing (p.code target)).toUTF8 := by
        rw [hsink hfault]
        exact ByteArray.empty_append
      have htext : String.fromUTF8? (listing (p.code target)).toUTF8 =
          some (listing (p.code target)) := dif_pos (String.isValidUTF8 _)
      simp only [hbytes, htext, Program.outcome]

/-- A program that was read has code if no two of its functions have the same
name and each of them returns at most once, and then nothing or a constant of 32
bits. Otherwise the first function that breaks these rules decides the error. -/
theorem ofTree_result_of_readProgram {file source : String} {root : Node}
    (hread : (readProgram file source).1 = .ok root) :
    ∃ p : Program, root = p.tree ∧ ∀ target,
      ((∃ text, (Assembly.ofTree target root).result = .ok text) ↔ p.Accepted) ∧
      (p.Accepted → (Assembly.ofTree target root).result = .ok (listing (p.code target))) ∧
      (¬p.Accepted → ∃ before d after error, p = before ++ d :: after ∧ Program.Accepted before ∧
        d.fault (before.map Definition.name) = some error ∧
        (Assembly.ofTree target root).result = .error (.failure error)) := by
  obtain ⟨p, -, rfl, hspellable⟩ := exists_program_of_readProgram hread
  have haccepted : p.faultAfter [] = none ↔ p.Accepted := by
    simp [Program.faultAfter_eq_none]
  refine ⟨p, rfl, fun target => ?_⟩
  have hresult := Assembly.ofTree_program target hspellable
  cases hfault : p.faultAfter [] with
  | none =>
      rw [hfault] at hresult
      have hp : p.Accepted := haccepted.mp hfault
      exact ⟨⟨fun _ => hp, fun _ => ⟨_, hresult⟩⟩, fun _ => hresult, fun hnot => absurd hp hnot⟩
  | some error =>
      rw [hfault] at hresult
      have hnot : ¬p.Accepted := fun hp =>
        Option.some_ne_none error (hfault.symm.trans (haccepted.mpr hp))
      obtain ⟨before, d, after, hsplit, hbefore, hd⟩ := Program.exists_fault_of_faultAfter hfault
      refine ⟨⟨fun ⟨text, htext⟩ => ?_, fun hp => absurd hp hnot⟩, fun hp => absurd hp hnot,
        fun _ => ⟨before, d, after, error, hsplit, ?_, hd, hresult⟩⟩
      · rw [hresult] at htext
        cases htext
      · exact (Program.faultAfter_eq_none.mp hbefore).2

/-- Each function of this program has a fault, and the second one has two. -/
theorem ofTree_result_of_readProgram_faulty :
    ∃ root, (readProgram "a.c" "int f() { return g; } int f() { return 1; return; }").1 =
        .ok root ∧
      ∃ p : Program, root = p.tree ∧ ∀ target,
        (∃ text, (Assembly.ofTree target root).result = .ok text) ↔ p.Accepted := by
  have hread : (readProgram "a.c" "int f() { return g; } int f() { return 1; return; }").1 =
      .ok (.list [some (.function .int "f" (some (.list [some (.ret (some (.identifier "g")))]))),
        some (.function .int "f" (some (.list [some (.ret (some (.constant 1))),
          some (.ret none)])))]) := by cbv
  obtain ⟨p, hroot, hp⟩ := ofTree_result_of_readProgram hread
  exact ⟨_, hread, p, hroot, fun target => (hp target).1⟩

example : listing (Program.code .rv64 [⟨"f", true, [.empty, .ret (some (.literal 7))]⟩]) =
    ".text\n.globl f\nf:\n    addi sp, sp, -16\n    sd s0, 8(sp)\n    addi s0, sp, 16\n" ++
      "    li a0, 7\n    ld s0, 8(sp)\n    addi sp, sp, 16\n    ret\n" := by
  cbv

end MicroC
