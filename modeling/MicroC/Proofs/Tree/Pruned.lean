import Mathlib
import MicroC.Compiler

/-!
Trees without their absent entries. Printing and emission do not see the
difference: the printed text is the same, and so is every run of emission,
from any context, into any stream, whether it succeeds or not.
-/

namespace MicroC

open RiscV (Target)

namespace Node

mutual

/-- The tree without the absent entries of its lists, at any depth. -/
def pruned : Node → Node
  | identifier name => identifier name
  | constant value => constant value
  | ret expression => ret (prunedOption expression)
  | declarator name => declarator name
  | function type name body => function type name (prunedOption body)
  | list entries => list (prunedEntries entries)

def prunedOption : Option Node → Option Node
  | none => none
  | some node => some node.pruned

def prunedEntries : List (Option Node) → List (Option Node)
  | [] => []
  | none :: rest => prunedEntries rest
  | some node :: rest => some node.pruned :: prunedEntries rest

end

@[simp] theorem kind_pruned (node : Node) : node.pruned.kind = node.kind := by
  cases node <;> rfl

mutual

theorem print_pruned (node : Node) : node.pruned.print = node.print := by
  cases node with
  | identifier | constant | declarator => rfl
  | ret expression =>
      cases expression with
      | none => rfl
      | some e => simp only [pruned, prunedOption, print, print_pruned e]
  | function type name body => simp only [pruned, print, printOption_pruned body]
  | list entries => simp only [pruned, print, printEntries_pruned entries]

theorem printOption_pruned (node : Option Node) :
    printOption (prunedOption node) = printOption node := by
  cases node with
  | none => rfl
  | some node => simp only [prunedOption, printOption, print_pruned node]

theorem printEntries_pruned (entries : List (Option Node)) :
    printEntries (prunedEntries entries) = printEntries entries := by
  cases entries with
  | nil => rfl
  | cons entry rest =>
      cases entry with
      | none => simp only [prunedEntries, printEntries, printOption, printEntries_pruned rest,
          String.empty_append]
      | some node => simp only [prunedEntries, printEntries, printOption, print_pruned node,
          printEntries_pruned rest]

end

end Node

namespace Emit

@[simp] theorem returnValue_pruned (node : Node) : returnValue node.pruned = returnValue node := by
  cases node <;> rfl

@[simp] theorem checkEntry_pruned (node : Node) : checkEntry node.pruned = checkEntry node := by
  cases node <;> rfl

@[simp] theorem returnStatement_pruned (expression : Option Node) :
    returnStatement (Node.prunedOption expression) = returnStatement expression := by
  cases expression with
  | none => rfl
  | some e => simp only [Node.prunedOption, returnStatement, returnValue_pruned]

end Emit

namespace Node

open Emit

mutual

/-- As steps on a session the two trees are one. -/
theorem emit_pruned (node : Node) : node.pruned.emit = node.emit := by
  cases node with
  | identifier | constant | declarator => rfl
  | ret expression => simp only [pruned, emit, returnStatement_pruned]
  | function type name body => simp only [pruned, emit, emitOption_pruned body]
  | list entries => simp only [pruned, emit, emitEntries_pruned entries]

theorem emitOption_pruned (node : Option Node) :
    emitOption (prunedOption node) = emitOption node := by
  cases node with
  | none => rfl
  | some node => simp only [prunedOption, emitOption, emit_pruned node]

theorem emitEntries_pruned (entries : List (Option Node)) :
    emitEntries (prunedEntries entries) = emitEntries entries := by
  cases entries with
  | nil => rfl
  | cons entry rest =>
      cases entry with
      | none => simp only [prunedEntries, emitEntries, emitEntries_pruned rest]
      | some node => simp only [prunedEntries, emitEntries, checkEntry_pruned, emit_pruned node,
          emitEntries_pruned rest]

end

end Node

theorem Assembly.ofTree_pruned (target : Target) (root : Node) :
    ofTree target root.pruned = ofTree target root := by
  have hemit : emitAlone target root.pruned = emitAlone target root := by
    simp only [emitAlone, Node.kind_pruned, Node.emit_pruned]
  rw [ofTree, ofTree, hemit]

end MicroC
