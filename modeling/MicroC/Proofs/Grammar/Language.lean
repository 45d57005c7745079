import MicroC.Proofs.Grammar.Parser

/-!
The language that each reader accepts. No two prefixes of the same tokens derive
from one production, and no two derivations read off the same tokens, so the
tokens alone decide what a reader passes and what it gives. The end of the text
stays where it is, also when a reader fails.
-/

namespace MicroC.Parse

open Token (Kind)
open Grammar

/-! ### The end of the text -/

/-- What was passed to get to `rest` was not the end of the text. -/
def SparesEnd (tokens rest : List Token) : Prop :=
  ∃ passed, tokens = passed ++ rest ∧ ∀ t ∈ passed, t.kind ≠ .endOfFile

namespace SparesEnd

variable {tokens middle rest : List Token}

theorem refl (tokens : List Token) : SparesEnd tokens tokens := ⟨[], rfl, nofun⟩

theorem cons {t : Token} (ht : t.kind ≠ .endOfFile) (h : SparesEnd tokens rest) :
    SparesEnd (t :: tokens) rest := by
  obtain ⟨passed, rfl, hpassed⟩ := h
  refine ⟨t :: passed, rfl, ?_⟩
  intro u hu
  rcases List.mem_cons.mp hu with rfl | hu
  · exact ht
  · exact hpassed u hu

theorem trans (h : SparesEnd tokens middle) (h' : SparesEnd middle rest) :
    SparesEnd tokens rest := by
  obtain ⟨passed, rfl, hpassed⟩ := h
  induction passed with
  | nil => exact h'
  | cons t passed ih =>
      exact cons (hpassed t List.mem_cons_self)
        (ih fun u hu => hpassed u (List.mem_cons_of_mem t hu))

end SparesEnd

/-- Whatever comes of it, the reader passes no end of the text. -/
def KeepsEnd {α : Type} (p : ParseM α) (tokens : List Token) : Prop :=
  SparesEnd tokens (run p tokens).2

namespace KeepsEnd

variable {α β : Type} {tokens : List Token}

theorem of_unmoved {p : ParseM α} (h : (run p tokens).2 = tokens) : KeepsEnd p tokens := by
  rw [KeepsEnd, h]
  exact .refl tokens

theorem bind {x : ParseM α} {f : α → ParseM β} (hx : KeepsEnd x tokens)
    (hf : ∀ a rest, KeepsEnd (f a) rest) : KeepsEnd (x >>= f) tokens := by
  rw [KeepsEnd] at hx ⊢
  rw [run_bind]
  rcases hrun : run x tokens with ⟨result, middle⟩
  rw [hrun] at hx
  cases result with
  | error e => exact hx
  | ok a => exact hx.trans (hf a middle)

/-- A token of a known kind is passed. -/
theorem pass_bind {f : Unit → ParseM α} {kind : Kind} (hkind : (peek tokens).kind = kind)
    (hne : kind ≠ .endOfFile) (hf : KeepsEnd (f ()) tokens.tail) :
    KeepsEnd (pass >>= f) tokens := by
  cases tokens with
  | nil => exact absurd hkind.symm hne
  | cons t rest => exact .cons (fun h => hne (hkind.symm.trans h)) hf

theorem expect {wanted : Kind} (hwanted : wanted ≠ .endOfFile) (place : String)
    (tokens : List Token) : KeepsEnd (expect wanted place) tokens := by
  show KeepsEnd (do if (← kind) = wanted then pass else unexpected _) tokens
  rw [KeepsEnd, run_kind_bind]
  split
  · rename_i hkind
    exact pass_bind (f := fun u => pure u) hkind hwanted (of_unmoved rfl)
  · exact of_unmoved rfl

theorem typeSpecifier (tokens : List Token) : KeepsEnd typeSpecifier tokens := by
  rw [KeepsEnd, Parse.typeSpecifier, run_kind_bind]
  split
  · rename_i hkind
    exact pass_bind hkind (by decide) (of_unmoved rfl)
  · exact of_unmoved rfl

theorem declarator (tokens : List Token) : KeepsEnd declarator tokens := by
  rw [KeepsEnd, Parse.declarator, run_kind_bind]
  split
  · rename_i name hkind
    exact pass_bind hkind (by simp) (of_unmoved rfl)
  · exact of_unmoved rfl

theorem expression (tokens : List Token) : KeepsEnd expression tokens := by
  rw [KeepsEnd, Parse.expression, run_kind_bind]
  split
  · rename_i value hkind
    exact pass_bind hkind (by simp) (of_unmoved rfl)
  · rename_i name hkind
    exact pass_bind hkind (by simp) (of_unmoved rfl)
  · exact of_unmoved rfl

theorem returned (tokens : List Token) : KeepsEnd returned tokens := by
  have hfinish : ∀ (value : Option Node) (rest : List Token),
      KeepsEnd (do Parse.expect .semicolon "return statement"; return Node.ret value) rest :=
    fun value rest => (expect (by decide) _ rest).bind fun _ _ => of_unmoved rfl
  rw [KeepsEnd, Parse.returned, run_kind_bind]
  dsimp only
  split
  · exact bind (of_unmoved rfl) hfinish
  · have hvalue : KeepsEnd (some <$> Parse.expression) tokens :=
      (expression tokens).bind fun _ _ => of_unmoved rfl
    exact bind hvalue hfinish

theorem statement (tokens : List Token) : KeepsEnd statement tokens := by
  rw [KeepsEnd, Parse.statement, run_kind_bind]
  split
  · rename_i hkind
    have hvalue : KeepsEnd (some <$> Parse.returned) tokens.tail :=
      (returned tokens.tail).bind fun _ _ => of_unmoved rfl
    exact pass_bind hkind (by decide) hvalue
  · rename_i hkind
    exact pass_bind hkind (by decide) (of_unmoved rfl)
  · exact of_unmoved rfl

theorem atMost {item : ParseM α} (more : Kind → Bool) (hitem : ∀ rest, KeepsEnd item rest)
    (limit : Nat) (tokens : List Token) :
    SparesEnd tokens (atMost more item limit tokens).2 := by
  induction limit generalizing tokens with
  | zero => exact .refl tokens
  | succ limit ih =>
      rw [Parse.atMost]
      split
      · have hfirst : SparesEnd tokens (item.run tokens).2 := hitem tokens
        rcases hrun : item.run tokens with ⟨result, middle⟩
        rw [hrun] at hfirst
        cases result with
        | error e => exact hfirst
        | ok a => exact hfirst.trans (ih middle)
      · exact .refl tokens

theorem many {item : ParseM α} (more : Kind → Bool) (hitem : ∀ rest, KeepsEnd item rest)
    (tokens : List Token) : KeepsEnd (many more item) tokens :=
  atMost more hitem tokens.length tokens

theorem compoundStatement (tokens : List Token) : KeepsEnd compoundStatement tokens := by
  apply (expect (by decide) _ tokens).bind
  intro _ rest
  apply (many _ statement rest).bind
  intro entries rest
  exact (expect (by decide) _ rest).bind fun _ _ => of_unmoved rfl

theorem functionDefinition (tokens : List Token) : KeepsEnd functionDefinition tokens := by
  apply (typeSpecifier tokens).bind
  intro type rest
  apply (declarator rest).bind
  intro name rest
  apply (expect (by decide) _ rest).bind
  intro _ rest
  have hblock : ∀ rest, KeepsEnd (do
      Parse.expect .rightParen "function declarator"
      let body ← Parse.compoundStatement
      return Node.function type name (some body)) rest := by
    intro rest
    apply (expect (by decide) _ rest).bind
    intro _ rest
    exact (compoundStatement rest).bind fun _ _ => of_unmoved rfl
  rw [KeepsEnd, run_kind_bind]
  dsimp only
  split
  · rename_i hkind
    exact pass_bind hkind (by decide) (hblock rest.tail)
  · exact hblock rest

theorem program (tokens : List Token) : KeepsEnd program tokens := by
  apply (many _ functionDefinition tokens).bind
  intro items rest
  apply of_unmoved
  dsimp only
  split <;> rfl

end KeepsEnd

/-! ### Exact readers -/

/-- A reader follows a production: it succeeds exactly if tokens in front derive
from the production, passes those tokens and gives their tree. No other tokens
in front derive from it, and these have no other derivation. -/
structure Follows {α δ : Type} (item : ParseM α) (kinds : δ → List Kind) (tree : δ → α) :
    Prop where
  reads (a : α) (tokens rest : List Token) :
    run item tokens = (.ok a, rest) ↔ ∃ d, a = tree d ∧ Passes (kinds d) tokens rest
  unique (d d' : δ) (tokens rest rest' : List Token) :
    Passes (kinds d) tokens rest → Passes (kinds d') tokens rest' → d = d' ∧ rest = rest'
  keepsEnd (tokens : List Token) : KeepsEnd item tokens

theorem kinds_eq_of_passes {kinds kinds' : List Kind} {tokens rest : List Token}
    (h : Passes kinds tokens rest) (h' : Passes kinds' tokens rest) : kinds = kinds' := by
  obtain ⟨front, rfl, rfl⟩ := h
  obtain ⟨front', hfront, rfl⟩ := h'
  rw [List.append_cancel_right hfront]

namespace Follows

variable {α δ : Type} {item : ParseM α} {kinds : δ → List Kind} {tree : δ → α}

/-- A reader has one result, so derivations that differ read off different
tokens as soon as their trees and their tokens together tell them apart. -/
theorem of_reads
    (hreads : ∀ {a : α} {tokens rest : List Token},
      run item tokens = (.ok a, rest) ↔ ∃ d, a = tree d ∧ Passes (kinds d) tokens rest)
    (hinj : ∀ d d', kinds d = kinds d' → tree d = tree d' → d = d')
    (hend : ∀ tokens, KeepsEnd item tokens) : Follows item kinds tree where
  reads _ _ _ := hreads
  unique d d' tokens rest rest' hd hd' := by
    have hrun := hreads.mpr ⟨d, rfl, hd⟩
    rw [hreads.mpr ⟨d', rfl, hd'⟩] at hrun
    obtain ⟨htree, rfl⟩ : tree d' = tree d ∧ rest' = rest := by simpa using hrun
    exact ⟨hinj d d' (kinds_eq_of_passes hd hd') htree.symm, rfl⟩
  keepsEnd := hend

/-- A sequence of sentences is cut into them in one way. -/
theorem unique_sequence (h : Follows item kinds tree) (hne : ∀ d, kinds d ≠ []) {ds ds' : List δ}
    {tokens rest : List Token} (hds : Passes (ds.flatMap kinds) tokens rest)
    (hds' : Passes (ds'.flatMap kinds) tokens rest) : ds = ds' := by
  have hcons : ∀ {d : δ} {ds : List δ} {tokens : List Token},
      Passes ((d :: ds).flatMap kinds) tokens rest → rest.length < tokens.length := by
    intro d ds tokens hpasses
    apply length_lt_of_passes hpasses
    rw [List.flatMap_cons]
    exact List.append_ne_nil_of_left_ne_nil (hne d) _
  induction ds generalizing ds' tokens with
  | nil =>
      obtain rfl := passes_nil.mp hds
      cases ds' with
      | nil => rfl
      | cons d' ds' => exact absurd (hcons hds') (Nat.lt_irrefl _)
  | cons d ds ih =>
      cases ds' with
      | nil =>
          obtain rfl := passes_nil.mp hds'
          exact absurd (hcons hds) (Nat.lt_irrefl _)
      | cons d' ds' =>
          obtain ⟨middle, hd, hlater⟩ := passes_append.mp hds
          obtain ⟨middle', hd', hlater'⟩ := passes_append.mp hds'
          obtain ⟨rfl, rfl⟩ := h.unique d d' tokens middle middle' hd hd'
          rw [ih hlater hlater']

end Follows

end MicroC.Parse

namespace MicroC.Grammar

open Token (Kind)
open Parse (Follows KeepsEnd Passes)

/-! ### The productions -/

def typeKinds : TypeSpecifier → List Kind
  | .int => [.keywordInt]

def declaratorKinds (name : String) : List Kind := [.identifier name]

theorem Expression.tree_injective : Function.Injective Expression.tree := by
  intro e e' h
  cases e <;> cases e' <;> cases h <;> rfl

theorem Statement.tree_injective : Function.Injective Statement.tree := by
  intro s s' h
  cases s with
  | empty =>
      cases s' with
      | empty => rfl
      | ret value' => cases h
  | ret value =>
      cases s' with
      | empty => cases h
      | ret value' =>
          have hvalue : value.map Expression.tree = value'.map Expression.tree := by
            simpa [Statement.tree] using h
          rw [Option.map_injective Expression.tree_injective hvalue]

theorem blockTree_injective : Function.Injective blockTree := by
  intro body body' h
  have hentries : body.map Statement.tree = body'.map Statement.tree := by
    simpa [blockTree] using h
  exact List.map_injective_iff.mpr Statement.tree_injective hentries

/-- The tree of a function forgets whether `void` was written; its tokens do
not. -/
theorem Definition.eq_of_kinds_of_tree {d d' : Definition} (hkinds : d.kinds = d'.kinds)
    (htree : d.tree = d'.tree) : d = d' := by
  obtain ⟨name, void, body⟩ := d
  obtain ⟨name', void', body'⟩ := d'
  obtain ⟨rfl, hblock⟩ : name = name' ∧ blockTree body = blockTree body' := by
    simpa [Definition.tree] using htree
  obtain rfl := blockTree_injective hblock
  cases void <;> cases void'
  · rfl
  · simp [Definition.kinds, Definition.parameterKinds] at hkinds
  · simp [Definition.kinds, Definition.parameterKinds] at hkinds
  · rfl

theorem follows_typeSpecifier : Follows Parse.typeSpecifier typeKinds id := by
  apply Follows.of_reads
  · intro type tokens rest
    rw [Parse.run_typeSpecifier_eq_ok]
    constructor
    · exact fun h => ⟨.int, rfl, h⟩
    · rintro ⟨⟨⟩, -, h⟩
      exact h
  · exact fun _ _ _ h => h
  · exact KeepsEnd.typeSpecifier

theorem follows_declarator : Follows Parse.declarator declaratorKinds id := by
  apply Follows.of_reads
  · intro name tokens rest
    rw [Parse.run_declarator_eq_ok]
    constructor
    · exact fun h => ⟨name, rfl, h⟩
    · rintro ⟨_, rfl, h⟩
      exact h
  · exact fun _ _ _ h => h
  · exact KeepsEnd.declarator

theorem follows_expression : Follows Parse.expression Expression.kinds Expression.tree :=
  .of_reads Parse.run_expression_eq_ok (fun _ _ _ h => Expression.tree_injective h)
    KeepsEnd.expression

theorem follows_statement : Follows Parse.statement Statement.kinds Statement.tree :=
  .of_reads Parse.run_statement_eq_ok (fun _ _ _ h => Statement.tree_injective h)
    KeepsEnd.statement

theorem follows_compoundStatement : Follows Parse.compoundStatement blockKinds blockTree :=
  .of_reads Parse.run_compoundStatement_eq_ok (fun _ _ _ h => blockTree_injective h)
    KeepsEnd.compoundStatement

theorem follows_functionDefinition :
    Follows Parse.functionDefinition Definition.kinds Definition.tree :=
  .of_reads Parse.run_functionDefinition_eq_ok (fun _ _ => Definition.eq_of_kinds_of_tree)
    KeepsEnd.functionDefinition

/-! ### Programs -/

theorem Statement.endOfFile_not_mem_kinds (s : Statement) : .endOfFile ∉ s.kinds := by
  rcases s with - | - | - | - <;>
    simp [Statement.kinds, Statement.valueKinds, Expression.kinds]

theorem Definition.endOfFile_not_mem_kinds (d : Definition) : .endOfFile ∉ d.kinds := by
  have hbody : ∀ s ∈ d.body, .endOfFile ∉ s.kinds := fun s _ => s.endOfFile_not_mem_kinds
  cases hvoid : d.void <;> simpa [Definition.kinds, parameterKinds, hvoid, blockKinds] using hbody

theorem Program.endOfFile_not_mem_kinds (p : Program) : .endOfFile ∉ p.kinds := by
  simpa [Program.kinds] using fun d _ => Definition.endOfFile_not_mem_kinds d

theorem Program.kinds_injective : Function.Injective Program.kinds := by
  intro p p' h
  let tokens : List Token := p.kinds.map fun kind => ⟨kind, .point .unknown⟩
  have hpasses : Passes p.kinds tokens [] := by
    refine ⟨tokens, (List.append_nil _).symm, ?_⟩
    rw [List.map_map]
    exact List.map_id _
  have hpasses' : Passes p'.kinds tokens [] := h ▸ hpasses
  exact follows_functionDefinition.unique_sequence (fun d => by simp [Definition.kinds]) hpasses
    hpasses'

/-- What is left after a sentence begins with the end of the text exactly if the
sentence goes up to there. -/
theorem Program.exists_passes_iff {p : Program} {tokens : List Token} :
    (∃ rest, Passes p.kinds tokens rest ∧ (Parse.peek rest).kind = .endOfFile) ↔
      p.kinds = (tokens.map (·.kind)).takeWhile (· ≠ .endOfFile) := by
  constructor
  · rintro ⟨rest, ⟨front, rfl, hfront⟩, hend⟩
    have hkinds : ∀ kind ∈ p.kinds, decide (kind ≠ .endOfFile) = true := by
      intro kind hkind
      exact decide_eq_true fun h => p.endOfFile_not_mem_kinds (h ▸ hkind)
    rw [List.map_append, hfront, List.takeWhile_append_of_pos hkinds]
    cases rest with
    | nil => simp
    | cons t rest =>
        have ht : t.kind = .endOfFile := hend
        simp [ht]
  · intro h
    refine ⟨tokens.dropWhile fun t => t.kind ≠ .endOfFile,
      ⟨tokens.takeWhile fun t => t.kind ≠ .endOfFile, ?_, ?_⟩, ?_⟩
    · exact List.takeWhile_append_dropWhile.symm
    · rw [h, List.takeWhile_map]
      rfl
    · cases hrest : tokens.dropWhile fun t => t.kind ≠ .endOfFile with
      | nil => rfl
      | cons t rest =>
          have hne : tokens.dropWhile (fun t => t.kind ≠ .endOfFile) ≠ [] := by
            rw [hrest]
            exact List.cons_ne_nil t rest
          have hhead := List.head_dropWhile_not (fun t : Token => decide (t.kind ≠ .endOfFile))
            hne
          simp only [hrest, List.head_cons] at hhead
          simpa [Parse.peek] using hhead

end MicroC.Grammar

namespace MicroC

open Grammar

/-- The parser accepts the sentences of the grammar and builds the tree of their
derivations, of which each has one; and each of its readers follows its
production from wherever it starts. -/
theorem parse_follows_grammar :
    (∀ (tokens : List Token) (node : Node), parse tokens = .ok node ↔
      ∃ p : Program, p ≠ [] ∧ node = p.tree ∧
        p.kinds = (tokens.map (·.kind)).takeWhile (· ≠ .endOfFile)) ∧
      (∀ p p' : Program, p.kinds = p'.kinds → p = p') ∧
      (∀ tokens, Parse.KeepsEnd Parse.program tokens) ∧
      Parse.Follows Parse.functionDefinition Definition.kinds Definition.tree ∧
      Parse.Follows Parse.typeSpecifier typeKinds id ∧
      Parse.Follows Parse.declarator declaratorKinds id ∧
      Parse.Follows Parse.compoundStatement blockKinds blockTree ∧
      Parse.Follows Parse.statement Statement.kinds Statement.tree ∧
      Parse.Follows Parse.expression Expression.kinds Expression.tree := by
  refine ⟨?_, fun p p' h => Program.kinds_injective h, Parse.KeepsEnd.program,
    follows_functionDefinition, follows_typeSpecifier, follows_declarator,
    follows_compoundStatement, follows_statement, follows_expression⟩
  intro tokens node
  simp only [parse_eq_ok, Program.exists_passes_iff]

example : parse [⟨.keywordInt, .point .unknown⟩, ⟨.identifier "f", .point .unknown⟩,
      ⟨.leftParen, .point .unknown⟩, ⟨.rightParen, .point .unknown⟩,
      ⟨.leftBrace, .point .unknown⟩, ⟨.semicolon, .point .unknown⟩,
      ⟨.rightBrace, .point .unknown⟩, ⟨.endOfFile, .point .unknown⟩,
      ⟨.rightBrace, .point .unknown⟩] =
    .ok (.list [some (.function .int "f" (some (.list [none])))]) := by
  rfl

end MicroC
