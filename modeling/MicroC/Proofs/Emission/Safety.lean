import MicroC.Proofs.Context.Runs
import MicroC.Proofs.Grammar.Reading

/-!
No contract is broken on the way from a text to its code, and a program is only
refused for what it says. Lines and columns can be counted on a text that is short
enough, the frame of a function stays within its bounds along every run of
operations, and a stream without limit takes all that is written, which is text.
-/

namespace MicroC

open RiscV
open Emit (run effect_emit)

namespace Assembly

/-- The session in which a whole program is emitted. -/
def start (target : Target) (root : Node) : Session :=
  ⟨.empty target, .unlimited, [.emitting root.kind target]⟩

theorem sound_start (target : Target) (root : Node) : (start target root).context.Sound :=
  fun _ hstate => by cases hstate

/-- The code of a program is what was written, if nothing stopped its emission. -/
theorem exists_result (target : Target) (root : Node) :
    (∃ s' text, run root.emit (start target root) = (.ok (), s') ∧
        s'.sink.written = text.toUTF8 ∧ (ofTree target root).result = .ok text) ∨
      ∃ s' stop, run root.emit (start target root) = (.error stop, s') ∧
        (ofTree target root).result = .error stop := by
  have halone : emitAlone target root (.ofContext (.empty target)) =
      run root.emit (start target root) := rfl
  have heffect := effect_emit root (start target root)
  simp only [ofTree, halone]
  generalize run root.emit (start target root) = outcome at heffect ⊢
  obtain ⟨stop | _, s'⟩ := outcome
  · exact .inr ⟨s', stop, rfl, rfl⟩
  · obtain ⟨text, htext⟩ := heffect.sink.text rfl
    have hwritten : s'.sink.written = text.toUTF8 := htext.trans ByteArray.empty_append
    have hread : String.fromUTF8? text.toUTF8 = some text := dif_pos (String.isValidUTF8 _)
    refine .inl ⟨s', text, rfl, hwritten, ?_⟩
    simp only [hwritten, hread]

/-- The errors that are about the program and about nothing else. -/
inductive Refuses : Halt EmitError → Prop
  | unbound (name : String) : Refuses (.failure (.unbound name))
  | redefinition (name : String) : Refuses (.failure (.redefinition name))
  | unsupported (construct : Construct) : Refuses (.failure (.unsupported construct))

theorem refuses_of_result {target : Target} {root : Node} {stop : Halt EmitError}
    (h : (ofTree target root).result = .error stop) : Refuses stop := by
  obtain ⟨s', text, -, -, hok⟩ | ⟨s', stop', hrun, herror⟩ := exists_result target root
  · rw [hok] at h
    cases h
  · rw [herror] at h
    cases h
    have hstops := (effect_emit root (start target root)).stops stop (by rw [hrun])
    cases hstops with
    | unbound name => exact .unbound name
    | redefinition name => exact .redefinition name
    | unsupported construct => exact .unsupported construct
    | full hroom => exact absurd rfl hroom
    | breach hsound breach => exact absurd (sound_start target root) hsound

end Assembly

/-- No contract is broken by reading a text whose lines and columns can be
counted, nor by emitting any tree to any stream in any context that operations lead
to, whether or not contracts were broken on the way there. A program without code
is refused for a name that is not bound or bound twice or for a construct. Printing
cannot fail. -/
theorem never_breaches :
    (∀ file source, source.length < 2 ^ 32 - 1 → ∀ breach,
      tokenize file source ≠ .error (.breach breach) ∧
        (readProgram file source).1 ≠ .error (.breach breach)) ∧
    (∀ (node : Node) (s : Session), s.context.Reachable → ∀ breach,
      (run node.emit s).1 ≠ .error (.breach breach)) ∧
    ∀ target root stop, (Assembly.ofTree target root).result = .error stop →
      Assembly.Refuses stop := by
  refine ⟨fun file source hsource breach => ⟨?_, ?_⟩, fun node s hs => ?_,
    fun target root stop => ?_⟩
  · exact Cursor.tokens_ne_breach (Cursor.hasRoom_start hsource) file breach
  · exact readProgram_ne_breach hsource file breach
  · exact Emit.run_emit_ne_breach hs.sound node
  · exact Assembly.refuses_of_result

/-- A text that is not a program, a context that broken contracts and a frame of
almost the largest size led to, and a return outside any function. -/
theorem never_breaches_extreme :
    (∀ breach, (readProgram "a.c" "int f( \n return 1").1 ≠ .error (.breach breach)) ∧
    (∀ breach, (run (Node.emit (.ret none)) ⟨(Operation.afterAll [.exitScope, .openFunction "f",
      .exitScope, .closeFunction, .openFunction "g", .slot 2147483391]
        (.ofContext (.empty .rv64))).context, .limited 5, []⟩).1 ≠ .error (.breach breach)) ∧
    Assembly.Refuses (.failure (.unsupported .returnOutside)) := by
  obtain ⟨hread, hemit, hrefused⟩ := never_breaches
  refine ⟨fun breach => (hread "a.c" _ ?_ breach).2, hemit (.ret none) _ ⟨.rv64, _, rfl⟩, ?_⟩
  · decide
  · exact hrefused .rv64 (.ret none) _ (by cbv)

end MicroC
