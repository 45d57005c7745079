import MicroC.Proofs.Grammar.Reading
import MicroC.Proofs.Tree.Pruned

/-!
Printed programs read back. The text of a program spells its derivation in
plainest form, without empty statements and without the word `void`, and the
tree of that derivation is the tree of the program without its absent entries.
-/

namespace MicroC

open Grammar
open Token (Kind)

/-! ### Programs in plainest form -/

namespace Grammar

namespace Definition

def plain (d : Definition) : Definition := ⟨d.name, false, d.body.filter (· ≠ .empty)⟩

theorem pruned_tree (d : Definition) : d.tree.pruned = d.plain.tree := by
  have hbody : ∀ body : List Statement, Node.prunedEntries (body.map Statement.tree) =
      (body.filter (· ≠ .empty)).map Statement.tree := by
    intro body
    induction body with
    | nil => rfl
    | cons s body ih =>
        cases s with
        | empty => simpa [Statement.tree, Node.prunedEntries] using ih
        | ret value =>
            have hvalue : Node.prunedOption (value.map Expression.tree) =
                value.map Expression.tree := by
              rcases value with - | - | - <;> rfl
            simpa [Statement.tree, Node.prunedEntries, Node.pruned, hvalue] using ih
  simp only [tree, plain, blockTree, Node.pruned, Node.prunedOption, hbody]

end Definition

namespace Program

def plain (p : Program) : Program := p.map Definition.plain

theorem pruned_tree (p : Program) : p.tree.pruned = p.plain.tree := by
  have hentries : ∀ p : Program, Node.prunedEntries (p.map fun d => some d.tree) =
      p.plain.map fun d => some d.tree := by
    intro p
    induction p with
    | nil => rfl
    | cons d p ih =>
        rw [List.map_cons, Node.prunedEntries, d.pruned_tree, ih]
        rfl
  simp only [tree, Node.pruned, hentries]

end Program

/-! ### The printed text of a program -/

theorem spells_print_expression {e : Expression} {rest : List Char} {kinds : List Kind}
    (he : ∀ kind ∈ e.kinds, kind.Spellable) (h : Spells (';' :: rest) kinds) :
    Spells (e.tree.print.toList ++ ';' :: rest) (e.kinds ++ kinds) := by
  cases e with
  | literal value =>
      refine Spells.literal (he _ List.mem_cons_self) ?_ h
      rintro c ⟨⟩
      decide
  | named name =>
      have hname : IsName name := he _ List.mem_cons_self
      have hword := Spells.word hname.1 (by decide) h
      rwa [hname.2] at hword

/-- The entry of a statement is printed as the statement, or not at all. -/
theorem spells_print_statement {s : Statement} {rest : List Char} {kinds : List Kind}
    (hs : ∀ kind ∈ s.kinds, kind.Spellable) (h : Spells rest kinds) :
    Spells ((Node.printOption s.tree).toList ++ rest)
      (([s].filter (· ≠ .empty)).flatMap Statement.kinds ++ kinds) := by
  cases s with
  | empty => exact h
  | ret value =>
      have hend : Spells (';' :: '\n' :: rest) (.semicolon :: kinds) :=
        .mark .semicolon (.blank (by decide) h)
      cases value with
      | none =>
          have htext : ("return;\n").toList = "return".toList ++ [';', '\n'] := rfl
          simp only [Statement.tree, Option.map_none, Node.printOption, Node.print, htext,
            List.append_assoc]
          exact Spells.word (by decide) (by decide) hend
      | some e =>
          have hreturn : ("return ").toList = "return".toList ++ [' '] := rfl
          have hsemicolon : (";\n").toList = [';', '\n'] := rfl
          have he : ∀ kind ∈ e.kinds, kind.Spellable := by
            intro kind hkind
            exact hs kind (by simp [Statement.kinds, Statement.valueKinds, hkind])
          have hkinds : ([Statement.ret (some e)].filter (· ≠ .empty)).flatMap Statement.kinds ++
              kinds = .keywordReturn :: (e.kinds ++ .semicolon :: kinds) := by
            simp [Statement.kinds, Statement.valueKinds]
          rw [hkinds]
          simp only [Statement.tree, Option.map_some, Node.printOption, Node.print,
            String.toList_append, hreturn, hsemicolon, List.append_assoc]
          exact Spells.word_blank (by decide) (by decide) (spells_print_expression he hend)

theorem spells_print_body {body : List Statement} {rest : List Char} {kinds : List Kind}
    (hbody : ∀ kind ∈ body.flatMap Statement.kinds, kind.Spellable) (h : Spells rest kinds) :
    Spells ((Node.printEntries (body.map Statement.tree)).toList ++ rest)
      ((body.filter (· ≠ .empty)).flatMap Statement.kinds ++ kinds) := by
  induction body with
  | nil => exact h
  | cons s body ih =>
      simp only [List.flatMap_cons, List.mem_append] at hbody
      have hlater := ih fun kind hkind => hbody kind (.inr hkind)
      have hfirst := spells_print_statement (fun kind hkind => hbody kind (.inl hkind)) hlater
      have hkinds : ((s :: body).filter (· ≠ .empty)).flatMap Statement.kinds ++ kinds =
          ([s].filter (· ≠ .empty)).flatMap Statement.kinds ++
            ((body.filter (· ≠ .empty)).flatMap Statement.kinds ++ kinds) := by
        rw [← List.singleton_append, List.filter_append, List.flatMap_append, List.append_assoc]
      rw [hkinds, List.map_cons, Node.printEntries, String.toList_append, List.append_assoc]
      exact hfirst

theorem spells_print_definition {d : Definition} {rest : List Char} {kinds : List Kind}
    (hd : ∀ kind ∈ d.kinds, kind.Spellable) (h : Spells rest kinds) :
    Spells (d.tree.print.toList ++ rest) (d.plain.kinds ++ kinds) := by
  have hname : IsName d.name := hd (.identifier d.name) (by simp [Definition.kinds])
  have hblank : (" ").toList = [' '] := rfl
  have hopen : ("() \x7b\n").toList = ['(', ')', ' ', '{', '\n'] := rfl
  have hclose : ("\x7d\n").toList = ['}', '\n'] := rfl
  have hlast : Spells ('}' :: '\n' :: rest) (.rightBrace :: kinds) :=
    .mark .rightBrace (.blank (by decide) h)
  have hbody := spells_print_body (Definition.spellable_body hd) hlast
  have hblock := Spells.mark .leftBrace (.blank (c := '\n') (by decide) hbody)
  have hparens := Spells.mark .leftParen (.mark .rightParen (.blank (c := ' ') (by decide) hblock))
  have hdeclarator := Spells.word hname.1 (by decide) hparens
  rw [hname.2] at hdeclarator
  have hkinds : d.plain.kinds ++ kinds = .keywordInt :: .identifier d.name :: .leftParen ::
      .rightParen :: .leftBrace :: ((d.body.filter (· ≠ .empty)).flatMap Statement.kinds ++
        .rightBrace :: kinds) := by
    simp [Definition.plain, Definition.kinds, Definition.parameterKinds, blockKinds]
  rw [hkinds]
  simp only [Definition.tree, blockTree, Node.print, Node.printOption, TypeSpecifier.name,
    String.toList_append, hblank, hopen, hclose, List.append_assoc]
  exact Spells.word_blank (by decide) (by decide) hdeclarator

theorem spells_print_program {p : Program} (hp : ∀ kind ∈ p.kinds, kind.Spellable) :
    Spells p.tree.print.toList (p.plain.kinds ++ [.endOfFile]) := by
  induction p with
  | nil => exact .finish rfl
  | cons d p ih =>
      simp only [Program.kinds, List.flatMap_cons, List.mem_append] at hp
      have hlater := ih fun kind hkind => hp kind (.inr hkind)
      have hfirst := spells_print_definition (fun kind hkind => hp kind (.inl hkind)) hlater
      rw [Program.tree, List.map_cons, Node.print, Node.printEntries, String.toList_append]
      rw [Program.plain, List.map_cons, Program.kinds, List.flatMap_cons, List.append_assoc]
      exact hfirst

end Grammar

/-- A program that was read is printed as a text that reads back as the same
tree without absent entries, from which the same text and the same code are
made. -/
theorem readProgram_print {file source : String} {root : Node}
    (hread : (readProgram file source).1 = .ok root) (hprint : root.print.length < 2 ^ 32 - 1) :
    (∀ file', (readProgram file' root.print).1 = .ok root.pruned) ∧
      root.pruned.print = root.print ∧
      ∀ target, Assembly.ofTree target root.pruned = Assembly.ofTree target root := by
  obtain ⟨p, hne, rfl, hspellable⟩ := exists_program_of_readProgram hread
  refine ⟨?_, p.tree.print_pruned, fun target => Assembly.ofTree_pruned target p.tree⟩
  intro file'
  rw [p.pruned_tree]
  exact readProgram_of_spells file' hprint (by simpa [Program.plain] using hne)
    (spells_print_program hspellable)

/-- The round trip of a program with an empty statement, whose zero is read as
an octal literal. -/
theorem readProgram_print_zero :
    (readProgram "a.c" "int f(void) { ; return 0; }").1 = .ok (.list [some (.function .int "f"
        (some (.list [none, some (.ret (some (.constant 0)))])))]) ∧
      (readProgram "b.c" "int f() {
return 0;
}
").1 = .ok (.list [some (.function .int "f"
        (some (.list [some (.ret (some (.constant 0)))])))]) := by
  have hread : (readProgram "a.c" "int f(void) { ; return 0; }").1 = .ok (.list [some
      (.function .int "f" (some (.list [none, some (.ret (some (.constant 0)))])))]) := by cbv
  exact ⟨hread, (readProgram_print hread (by decide)).1 "b.c"⟩

end MicroC
