import MicroC.Compiler
import MicroC.Proofs.Grammar.Parser
import MicroC.Proofs.Token.Room

/-!
From source text to derivations: a text that reads as a program spells one of
its derivations, and a text that spells a derivation reads as its tree.
-/

namespace MicroC

open Grammar
open Token (Kind)

theorem readProgram_eq_ok {file source : String} {root : Node} :
    (readProgram file source).1 = .ok root ↔
      ∃ tokens, tokenize file source = .ok tokens ∧ parse tokens = .ok root := by
  unfold readProgram
  split
  · simp_all
  · simp_all
  · rename_i tokens htokens
    cases hparse : parse tokens with
    | error e => simp [htokens, hparse]
    | ok node => simp [htokens, hparse]

theorem blamesSource_of_readProgram {file source : String} {d : Diagnostic}
    (h : (readProgram file source).1 = .error (.failure d)) : d.blamesSource := by
  unfold readProgram at h
  split at h
  · cases h
    rfl
  · cases h
  · rename_i tokens _
    cases hparse : parse tokens with
    | ok root => simp [hparse] at h
    | error error =>
        simp only [hparse, Except.error.injEq, Halt.failure.injEq] at h
        rw [← h]
        cases error <;> rfl

/-- Lines and columns can be counted on a text that is short enough. -/
theorem readProgram_ne_breach {source : String} (h : source.length < 2 ^ 32 - 1) (file : String)
    (breach : Breach) : (readProgram file source).1 ≠ .error (.breach breach) := by
  have htokens := Cursor.tokens_ne_breach (Cursor.hasRoom_start h) file breach
  unfold readProgram
  split
  · exact nofun
  · rename_i breach' heq
    rintro ⟨⟩
    exact htokens heq
  · rename_i tokens _
    cases parse tokens <;> simp

/-- On a single line of blanks they cannot, if it is any longer. -/
theorem exists_breach_readProgram {n : Nat} (h : 2 ^ 32 - 1 ≤ n) (file : String) :
    ∃ breach, (readProgram file (.ofList (List.replicate n ' '))).1 = .error (.breach breach) := by
  have hcolumn : (1 : UInt32).toNat = 1 := rfl
  obtain ⟨breach, hskip⟩ := Cursor.exists_breach_skip n
    (c := .start (.ofList (List.replicate n ' '))) (by simp [Cursor.start])
    (by simp [Cursor.start]) (by simp only [Cursor.start, hcolumn, UInt32.size]; omega)
  have hnext : (Cursor.start (.ofList (List.replicate n ' '))).next file =
      (.error (.breach breach), .start (.ofList (List.replicate n ' '))) := by
    rw [Cursor.next]
    simp only [Cursor.start, String.toList_ofList, Layout.length_replicate_blank] at hskip ⊢
    rw [hskip]
  have htokens : tokenize file (.ofList (List.replicate n ' ')) = .error (.breach breach) := by
    rw [tokenize, Cursor.tokens]
    split <;> simp_all
  exact ⟨breach, by rw [readProgram, htokens]⟩

/-- What is read is a program, and each of its tokens can be spelled. -/
theorem exists_program_of_readProgram {file source : String} {root : Node}
    (h : (readProgram file source).1 = .ok root) :
    ∃ p : Program, p ≠ [] ∧ root = p.tree ∧ ∀ kind ∈ p.kinds, kind.Spellable := by
  obtain ⟨tokens, htokens, hparse⟩ := readProgram_eq_ok.mp h
  obtain ⟨p, hne, htree, rest, ⟨front, rfl, hfront⟩, -⟩ := parse_eq_ok.mp hparse
  refine ⟨p, hne, htree, ?_⟩
  intro kind hkind
  apply (Cursor.spells_of_tokens htokens).spellable
  rw [List.map_append, hfront]
  exact List.mem_append_left _ hkind

theorem Grammar.Definition.spellable_body {d : Definition}
    (h : ∀ kind ∈ d.kinds, kind.Spellable) :
    ∀ kind ∈ d.body.flatMap Statement.kinds, kind.Spellable := by
  intro kind hkind
  apply h kind
  simp only [kinds, blockKinds, List.mem_append, List.mem_cons]
  exact .inr (.inr (.inl (.inr hkind)))

theorem readProgram_of_spells {source : String} {p : Program} (file : String)
    (hlength : source.length < 2 ^ 32 - 1) (hne : p ≠ [])
    (h : Spells source.toList (p.kinds ++ [.endOfFile])) :
    (readProgram file source).1 = .ok p.tree := by
  obtain ⟨tokens, htokens, hkinds⟩ := (exists_tokenize_iff file hlength).mpr h
  obtain ⟨front, last, rfl, hfront, hlast⟩ := List.map_eq_append_iff.mp hkinds
  obtain ⟨t, rest, rfl, ht, -⟩ := List.map_eq_cons_iff.mp hlast
  refine readProgram_eq_ok.mpr ⟨_, htokens, ?_⟩
  exact parse_eq_ok.mpr ⟨p, hne, rfl, t :: rest, ⟨front, rfl, hfront⟩, ht⟩

end MicroC
