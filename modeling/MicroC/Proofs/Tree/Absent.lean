import MicroC.Proofs.Emission.Run
import MicroC.Proofs.Tree.Pruned

/-!
Absent entries are invisible. Two trees that differ only by absent entries,
put in or taken out in any lists at any depth, are the trees that are equal
without them; they print alike, and every run of emission is the same.
-/

namespace MicroC

open Relation (EqvGen)

namespace Node

/-- One absent entry more, in one list of the tree. -/
inductive Gains : Node → Node → Prop
  | here (front back : List (Option Node)) :
      Gains (.list (front ++ back)) (.list (front ++ none :: back))
  | entry (front back : List (Option Node)) {node node' : Node} (h : Gains node node') :
      Gains (.list (front ++ some node :: back)) (.list (front ++ some node' :: back))
  | returned {node node' : Node} (h : Gains node node') :
      Gains (.ret (some node)) (.ret (some node'))
  | body (type : TypeSpecifier) (name : String) {node node' : Node} (h : Gains node node') :
      Gains (.function type name (some node)) (.function type name (some node'))

/-- Absent entries are put in and taken out, any number of times and anywhere. -/
abbrev Padded : Node → Node → Prop := EqvGen Gains

theorem prunedEntries_append (front back : List (Option Node)) :
    prunedEntries (front ++ back) = prunedEntries front ++ prunedEntries back := by
  induction front with
  | nil => rfl
  | cons entry front ih => cases entry <;> simp [prunedEntries, ih]

theorem Gains.pruned_eq {node node' : Node} (h : Gains node node') :
    node.pruned = node'.pruned := by
  induction h with
  | here front back => simp only [pruned, prunedEntries_append, prunedEntries]
  | entry front back _ ih => simp only [pruned, prunedEntries_append, prunedEntries, ih]
  | returned _ ih => simp only [pruned, prunedOption, ih]
  | body type name _ ih => simp only [pruned, prunedOption, ih]

theorem Padded.pruned_eq {node node' : Node} (h : Padded node node') :
    node.pruned = node'.pruned := by
  induction h with
  | rel node node' h => exact h.pruned_eq
  | refl => rfl
  | symm node node' _ ih => exact ih.symm
  | trans node middle node' _ _ ih ih' => exact ih.trans ih'

/-- What can be done to a tree can be done to it as a part of another one. -/
theorem Padded.congr {place : Node → Node}
    (hplace : ∀ {node node'}, Gains node node' → Gains (place node) (place node'))
    {node node' : Node} (h : Padded node node') : Padded (place node) (place node') := by
  induction h with
  | rel node node' h => exact .rel _ _ (hplace h)
  | refl => exact .refl _
  | symm node node' _ ih => exact .symm _ _ ih
  | trans node middle node' _ _ ih ih' => exact .trans _ _ _ ih ih'

mutual

theorem padded_pruned (node : Node) : Padded node node.pruned := by
  cases node with
  | identifier | constant | declarator => exact .refl _
  | ret expression =>
      cases expression with
      | none => exact .refl _
      | some e => exact (padded_pruned e).congr .returned
  | function type name body =>
      cases body with
      | none => exact .refl _
      | some b => exact (padded_pruned b).congr (.body type name)
  | list entries => exact padded_prunedEntries [] entries

/-- The entries are pruned from the left; those of `front` are done. -/
theorem padded_prunedEntries (front entries : List (Option Node)) :
    Padded (.list (front ++ entries)) (.list (front ++ prunedEntries entries)) := by
  cases entries with
  | nil => exact .refl _
  | cons entry rest =>
      cases entry with
      | none =>
          have hgains : Padded (.list (front ++ rest)) (.list (front ++ none :: rest)) :=
            .rel _ _ (.here front rest)
          exact .trans _ _ _ (.symm _ _ hgains) (padded_prunedEntries front rest)
      | some node =>
          have hentry : Padded (.list (front ++ some node :: rest))
              (.list (front ++ some node.pruned :: rest)) :=
            (padded_pruned node).congr (.entry front rest)
          have hrest := padded_prunedEntries (front ++ [some node.pruned]) rest
          simp only [List.append_assoc, List.singleton_append] at hrest
          exact .trans _ _ _ hentry hrest

end

/-- Two trees differ by absent entries exactly if they are one tree without them. -/
theorem padded_iff {node node' : Node} : Padded node node' ↔ node.pruned = node'.pruned := by
  constructor
  · exact Padded.pruned_eq
  · intro h
    have hpruned := padded_pruned node
    rw [h] at hpruned
    exact .trans _ _ _ hpruned (.symm _ _ (padded_pruned node'))

/-- Trees that differ only by absent entries print to the same text, and from
every session, with its context and its stream, their emissions give the same
result and leave the same session. -/
theorem absent_invisible {node node' : Node} (h : Padded node node') :
    node.print = node'.print ∧ ∀ s : Session, Emit.run node.emit s = Emit.run node'.emit s := by
  have hpruned := h.pruned_eq
  constructor
  · rw [← print_pruned node, hpruned, print_pruned]
  · intro s
    rw [← emit_pruned node, hpruned, emit_pruned]

/-- Absent entries are taken out around a function and put in around the return
in its body; the stream has no room for all of the function. -/
theorem absent_invisible_behind_return :
    let plain : Node := .list [none, some (.function .int "f" (some (.list [some (.list
      [some (.ret (some (.constant 7)))]), none])))]
    let padded : Node := .list [some (.function .int "f" (some (.list [none, some (.list
      [none, some (.ret (some (.constant 7))), none, none])]))), none]
    let s : Session := ⟨.empty .rv64, .limited 40, []⟩
    plain ≠ padded ∧ plain.print = padded.print ∧
      (Emit.run plain.emit s).1 = .error (.failure (.stream .full)) ∧
      Emit.run plain.emit s = Emit.run padded.emit s := by
  intro plain padded s
  have hpadded : Padded plain padded := padded_iff.mpr (by decide)
  obtain ⟨hprint, hruns⟩ := absent_invisible hpadded
  exact ⟨by decide, hprint, by decide +kernel, hruns s⟩

end Node

end MicroC
