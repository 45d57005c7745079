import MicroC.Proofs.Grammar.Derivation
import MicroC.Tree.Parser

/-!
The parser against the grammar. Each reader succeeds exactly on the tokens
that begin with some derivation of its production, passes those tokens, and
gives the tree of that derivation.
-/

namespace MicroC.Parse

open Token (Kind)
open Grammar

/-- The tokens in front of `rest` are those of `kinds`. -/
def Passes (kinds : List Kind) (tokens rest : List Token) : Prop :=
  ∃ front, tokens = front ++ rest ∧ front.map (·.kind) = kinds

@[simp] theorem passes_nil {tokens rest : List Token} : Passes [] tokens rest ↔ tokens = rest := by
  simp [Passes]

theorem passes_cons {kind : Kind} {kinds : List Kind} {tokens rest : List Token} :
    Passes (kind :: kinds) tokens rest ↔
      ∃ t later, tokens = t :: later ∧ t.kind = kind ∧ Passes kinds later rest := by
  constructor
  · rintro ⟨front, rfl, hfront⟩
    obtain ⟨t, later, rfl, ht, hlater⟩ := List.map_eq_cons_iff.mp hfront
    exact ⟨t, later ++ rest, rfl, ht, later, rfl, hlater⟩
  · rintro ⟨t, -, rfl, ht, front, rfl, hfront⟩
    exact ⟨t :: front, rfl, by rw [List.map_cons, ht, hfront]⟩

theorem passes_append {kinds kinds' : List Kind} {tokens rest : List Token} :
    Passes (kinds ++ kinds') tokens rest ↔
      ∃ middle, Passes kinds tokens middle ∧ Passes kinds' middle rest := by
  constructor
  · rintro ⟨front, rfl, hfront⟩
    obtain ⟨front, front', rfl, hfront, hfront'⟩ := List.map_eq_append_iff.mp hfront
    exact ⟨front' ++ rest, ⟨front, by simp, hfront⟩, front', rfl, hfront'⟩
  · rintro ⟨-, ⟨front, rfl, hfront⟩, front', rfl, hfront'⟩
    exact ⟨front ++ front', by simp, by rw [List.map_append, hfront, hfront']⟩

theorem length_lt_of_passes {kinds : List Kind} {tokens rest : List Token}
    (h : Passes kinds tokens rest) (hne : kinds ≠ []) : rest.length < tokens.length := by
  obtain ⟨kind, kinds, rfl⟩ := List.exists_cons_of_ne_nil hne
  obtain ⟨t, later, rfl, -, front, rfl, -⟩ := passes_cons.mp h
  simp only [List.length_cons, List.length_append]
  omega

/-! ### Readers that succeed -/

/-- What a reader gives and the tokens that it leaves. -/
def run {α : Type} (p : ParseM α) (tokens : List Token) : Except ParseError α × List Token :=
  p.run tokens

theorem run_bind {α β : Type} (x : ParseM α) (f : α → ParseM β) (tokens : List Token) :
    run (x >>= f) tokens =
      match run x tokens with
      | (.ok a, rest) => run (f a) rest
      | (.error e, rest) => (.error e, rest) := by
  simp only [run, bind, ExceptT.bind, ExceptT.run, ExceptT.mk, StateT.bind, Id]
  rcases x tokens with ⟨result, rest⟩
  cases result <;> rfl

theorem run_bind_eq_ok {α β : Type} {x : ParseM α} {f : α → ParseM β} {b : β}
    {tokens rest : List Token} :
    run (x >>= f) tokens = (.ok b, rest) ↔
      ∃ a middle, run x tokens = (.ok a, middle) ∧ run (f a) middle = (.ok b, rest) := by
  rw [run_bind]
  rcases run x tokens with ⟨result, middle⟩
  cases result with
  | error e => simp
  | ok a =>
      constructor
      · exact fun h => ⟨a, middle, rfl, h⟩
      · rintro ⟨a', middle', heq, h⟩
        cases heq
        exact h

theorem run_pure_eq_ok {α : Type} {a b : α} {tokens rest : List Token} :
    run (pure a) tokens = (.ok b, rest) ↔ a = b ∧ tokens = rest := by
  change ((Except.ok a : Except ParseError α), tokens) = (.ok b, rest) ↔ _
  simp

theorem run_kind_bind {α : Type} (f : Kind → ParseM α) (tokens : List Token) :
    run (kind >>= f) tokens = run (f (peek tokens).kind) tokens := rfl

theorem run_pass_bind {α : Type} (f : Unit → ParseM α) (tokens : List Token) :
    run (pass >>= f) tokens = run (f ()) tokens.tail := rfl

theorem run_unexpected {α : Type} (expected : String) (tokens : List Token) :
    run (unexpected expected : ParseM α) tokens =
      (.error (.unexpected expected (peek tokens)), tokens) := rfl

theorem passes_singleton {kind : Kind} {tokens rest : List Token} (h : kind ≠ .endOfFile) :
    Passes [kind] tokens rest ↔ (peek tokens).kind = kind ∧ tokens.tail = rest := by
  rw [passes_cons]
  constructor
  · rintro ⟨t, later, rfl, ht, hlater⟩
    exact ⟨ht, passes_nil.mp hlater⟩
  · rintro ⟨hkind, rfl⟩
    cases tokens with
    | nil => exact absurd hkind.symm h
    | cons t later => exact ⟨t, later, rfl, hkind, passes_nil.mpr rfl⟩

theorem run_expect_eq_ok {wanted : Kind} {place : String} {u : Unit} {tokens rest : List Token}
    (h : wanted ≠ .endOfFile) :
    run (expect wanted place) tokens = (.ok u, rest) ↔ Passes [wanted] tokens rest := by
  rw [passes_singleton h, expect, run_kind_bind]
  split
  · rename_i hkind
    change ((Except.ok () : Except ParseError Unit), tokens.tail) = (.ok u, rest) ↔ _
    simp [hkind]
  · rename_i hkind
    simp [run_unexpected, hkind]

theorem run_typeSpecifier_eq_ok {type : TypeSpecifier} {tokens rest : List Token} :
    run typeSpecifier tokens = (.ok type, rest) ↔ Passes [.keywordInt] tokens rest := by
  rw [passes_singleton (by decide), typeSpecifier, run_kind_bind]
  cases type
  constructor
  · intro h
    split at h
    · rename_i hkind
      exact ⟨hkind, (run_pure_eq_ok.mp h).2⟩
    · cases h
  · rintro ⟨hkind, rfl⟩
    rw [hkind]
    rfl

theorem run_declarator_eq_ok {name : String} {tokens rest : List Token} :
    run declarator tokens = (.ok name, rest) ↔ Passes [.identifier name] tokens rest := by
  rw [passes_singleton (by simp), declarator, run_kind_bind]
  constructor
  · intro h
    split at h
    · rename_i hkind
      obtain ⟨rfl, hrest⟩ := run_pure_eq_ok.mp h
      exact ⟨hkind, hrest⟩
    · cases h
  · rintro ⟨hkind, rfl⟩
    rw [hkind]
    rfl

theorem run_expression_eq_ok {node : Node} {tokens rest : List Token} :
    run expression tokens = (.ok node, rest) ↔
      ∃ e : Expression, node = e.tree ∧ Passes e.kinds tokens rest := by
  rw [expression, run_kind_bind]
  constructor
  · intro h
    split at h
    · rename_i value hkind
      obtain ⟨rfl, hrest⟩ := run_pure_eq_ok.mp h
      exact ⟨.literal value, rfl, (passes_singleton (by simp)).mpr ⟨hkind, hrest⟩⟩
    · rename_i name hkind
      obtain ⟨rfl, hrest⟩ := run_pure_eq_ok.mp h
      exact ⟨.named name, rfl, (passes_singleton (by simp)).mpr ⟨hkind, hrest⟩⟩
    · cases h
  · rintro ⟨e, rfl, hpasses⟩
    cases e <;> obtain ⟨hkind, rfl⟩ := (passes_singleton (by simp)).mp hpasses <;> rw [hkind] <;>
      rfl

theorem peek_of_passes {kind : Kind} {kinds : List Kind} {tokens rest : List Token}
    (h : Passes (kind :: kinds) tokens rest) : (peek tokens).kind = kind := by
  obtain ⟨t, later, rfl, ht, -⟩ := passes_cons.mp h
  exact ht

/-- The end of a return statement, where `value` was read. -/
theorem run_finish_eq_ok {value : Option Node} {node : Node} {tokens rest : List Token} :
    run (do expect .semicolon "return statement"; return .ret value) tokens = (.ok node, rest) ↔
      node = .ret value ∧ Passes [.semicolon] tokens rest := by
  rw [run_bind_eq_ok]
  constructor
  · rintro ⟨u, middle, hexpect, hpure⟩
    obtain ⟨rfl, rfl⟩ := run_pure_eq_ok.mp hpure
    exact ⟨rfl, (run_expect_eq_ok (by decide)).mp hexpect⟩
  · rintro ⟨rfl, hpasses⟩
    exact ⟨(), rest, (run_expect_eq_ok (by decide)).mpr hpasses, run_pure_eq_ok.mpr ⟨rfl, rfl⟩⟩

theorem run_returned_eq_ok {node : Node} {tokens rest : List Token} :
    run returned tokens = (.ok node, rest) ↔
      ∃ value : Option Expression, node = .ret (value.map Expression.tree) ∧
        Passes (Statement.valueKinds value) tokens rest := by
  rw [returned, run_kind_bind]
  dsimp only
  constructor
  · intro h
    split at h
    · obtain ⟨value, middle, hpure, h⟩ := run_bind_eq_ok.mp h
      obtain ⟨rfl, rfl⟩ := run_pure_eq_ok.mp hpure
      obtain ⟨rfl, hend⟩ := run_finish_eq_ok.mp h
      exact ⟨none, rfl, hend⟩
    · obtain ⟨value, middle, hvalue, h⟩ := run_bind_eq_ok.mp h
      obtain ⟨expr, middle', hexpr, hpure⟩ := run_bind_eq_ok.mp hvalue
      obtain ⟨rfl, rfl⟩ := run_pure_eq_ok.mp hpure
      obtain ⟨e, rfl, hpasses⟩ := run_expression_eq_ok.mp hexpr
      obtain ⟨rfl, hend⟩ := run_finish_eq_ok.mp h
      exact ⟨some e, rfl, passes_append.mpr ⟨_, hpasses, hend⟩⟩
  · rintro ⟨value, rfl, hpasses⟩
    cases value with
    | none =>
        rw [if_pos (peek_of_passes hpasses)]
        exact run_bind_eq_ok.mpr ⟨none, tokens, rfl, run_finish_eq_ok.mpr ⟨rfl, hpasses⟩⟩
    | some e =>
        have hkind : (peek tokens).kind ≠ .semicolon := by
          cases e <;> rw [peek_of_passes hpasses] <;> simp
        obtain ⟨middle, hexpr, hend⟩ := passes_append.mp hpasses
        rw [if_neg hkind]
        refine run_bind_eq_ok.mpr ⟨some e.tree, middle, ?_, run_finish_eq_ok.mpr ⟨rfl, hend⟩⟩
        exact run_bind_eq_ok.mpr ⟨e.tree, middle, run_expression_eq_ok.mpr ⟨e, rfl, hexpr⟩, rfl⟩

theorem run_statement_eq_ok {entry : Option Node} {tokens rest : List Token} :
    run statement tokens = (.ok entry, rest) ↔
      ∃ s : Statement, entry = s.tree ∧ Passes s.kinds tokens rest := by
  rw [statement, run_kind_bind]
  constructor
  · intro h
    split at h
    · rename_i hkind
      rw [run_pass_bind] at h
      obtain ⟨node, middle, hnode, hpure⟩ := run_bind_eq_ok.mp h
      obtain ⟨rfl, rfl⟩ := run_pure_eq_ok.mp hpure
      obtain ⟨value, rfl, hpasses⟩ := run_returned_eq_ok.mp hnode
      have hword := (passes_singleton (by decide)).mpr ⟨hkind, rfl⟩
      exact ⟨.ret value, rfl, passes_append.mpr ⟨tokens.tail, hword, hpasses⟩⟩
    · rename_i hkind
      obtain ⟨rfl, hrest⟩ := run_pure_eq_ok.mp h
      exact ⟨.empty, rfl, (passes_singleton (by decide)).mpr ⟨hkind, hrest⟩⟩
    · cases h
  · rintro ⟨s, rfl, hpasses⟩
    cases s with
    | empty =>
        obtain ⟨hkind, rfl⟩ := (passes_singleton (by decide)).mp hpasses
        rw [hkind]
        rfl
    | ret value =>
        obtain ⟨t, later, rfl, ht, hvalue⟩ := passes_cons.mp hpasses
        have hkind : (peek (t :: later)).kind = .keywordReturn := ht
        rw [hkind]
        change run (some <$> returned) later = _
        exact run_bind_eq_ok.mpr ⟨_, rest, run_returned_eq_ok.mpr ⟨value, rfl, hvalue⟩, rfl⟩

/-! ### Repetition -/

/-- An item is read exactly as its derivations say, and `more` tells the first
kind of an item from the end of the text. -/
structure Repeats {α δ : Type} (more : Kind → Bool) (item : ParseM α) (kinds : δ → List Kind)
    (tree : δ → α) : Prop where
  stops : more .endOfFile = false
  reads {a : α} {tokens rest : List Token} :
    run item tokens = (.ok a, rest) ↔ ∃ d, a = tree d ∧ Passes (kinds d) tokens rest
  starts (d : δ) : ∃ kind later, kinds d = kind :: later ∧ more kind

namespace Repeats

variable {α δ : Type} {more : Kind → Bool} {item : ParseM α} {kinds : δ → List Kind} {tree : δ → α}

theorem derivation_of_atMost (h : Repeats more item kinds tree) {limit : Nat} {items : List α}
    {tokens rest : List Token} (hlimit : tokens.length ≤ limit)
    (hrun : atMost more item limit tokens = (.ok items, rest)) :
    ∃ ds : List δ, items = ds.map tree ∧ Passes (ds.flatMap kinds) tokens rest ∧
      more (peek rest).kind = false := by
  induction limit generalizing items tokens with
  | zero =>
      obtain rfl := List.length_eq_zero_iff.mp (Nat.le_zero.mp hlimit)
      cases hrun
      exact ⟨[], rfl, passes_nil.mpr rfl, h.stops⟩
  | succ limit ih =>
      rw [atMost] at hrun
      split at hrun
      · split at hrun
        · cases hrun
        · rename_i a middle hitem
          obtain ⟨d, rfl, hd⟩ := h.reads.mp hitem
          obtain ⟨kind, later, hkinds, -⟩ := h.starts d
          -- An item takes a token at least, so the limit is never what ends the loop.
          have hlt := length_lt_of_passes hd (by simp [hkinds])
          rcases hlater : atMost more item limit middle with ⟨result, rest'⟩
          rw [hlater] at hrun
          cases result with
          | error e => cases hrun
          | ok items' =>
              cases hrun
              obtain ⟨ds, rfl, hds, hstop⟩ := ih (by omega) hlater
              exact ⟨d :: ds, rfl, passes_append.mpr ⟨middle, hd, hds⟩, hstop⟩
      · rename_i hmore
        cases hrun
        exact ⟨[], rfl, passes_nil.mpr rfl, by simpa using hmore⟩

theorem atMost_of_derivation (h : Repeats more item kinds tree) {limit : Nat} {ds : List δ}
    {tokens rest : List Token} (hlimit : tokens.length ≤ limit)
    (hpasses : Passes (ds.flatMap kinds) tokens rest) (hstop : more (peek rest).kind = false) :
    atMost more item limit tokens = (.ok (ds.map tree), rest) := by
  induction ds generalizing limit tokens with
  | nil =>
      obtain rfl := passes_nil.mp hpasses
      cases limit with
      | zero => rfl
      | succ limit => simp [atMost, hstop]
  | cons d ds ih =>
      obtain ⟨middle, hd, hds⟩ := passes_append.mp hpasses
      obtain ⟨kind, later, hkinds, hmore⟩ := h.starts d
      have hlt := length_lt_of_passes hd (by simp [hkinds])
      have hkind : (peek tokens).kind = kind := peek_of_passes (hkinds ▸ hd)
      have hitem : item.run tokens = (.ok (tree d), middle) := h.reads.mpr ⟨d, rfl, hd⟩
      cases limit with
      | zero => omega
      | succ limit =>
          rw [atMost, hkind, if_pos hmore, hitem]
          dsimp only
          rw [ih (by omega) hds]
          rfl

theorem run_many_eq_ok (h : Repeats more item kinds tree) {items : List α}
    {tokens rest : List Token} :
    run (many more item) tokens = (.ok items, rest) ↔
      ∃ ds : List δ, items = ds.map tree ∧ Passes (ds.flatMap kinds) tokens rest ∧
        more (peek rest).kind = false := by
  constructor
  · exact h.derivation_of_atMost (Nat.le_refl _)
  · rintro ⟨ds, rfl, hpasses, hstop⟩
    exact h.atMost_of_derivation (Nat.le_refl _) hpasses hstop

end Repeats

theorem repeats_statement :
    Repeats (fun kind => kind != .rightBrace && kind != .endOfFile) statement Statement.kinds
      Statement.tree where
  stops := rfl
  reads := run_statement_eq_ok
  starts s := by cases s <;> exact ⟨_, _, rfl, rfl⟩

theorem run_compoundStatement_eq_ok {node : Node} {tokens rest : List Token} :
    run compoundStatement tokens = (.ok node, rest) ↔
      ∃ body : List Statement, node = blockTree body ∧ Passes (blockKinds body) tokens rest := by
  rw [compoundStatement, run_bind_eq_ok]
  constructor
  · rintro ⟨u, inner, hopen, h⟩
    obtain ⟨entries, after, hentries, h⟩ := run_bind_eq_ok.mp h
    obtain ⟨u', last, hclose, hpure⟩ := run_bind_eq_ok.mp h
    obtain ⟨rfl, rfl⟩ := run_pure_eq_ok.mp hpure
    obtain ⟨body, rfl, hbody, -⟩ := repeats_statement.run_many_eq_ok.mp hentries
    have hopen := (run_expect_eq_ok (by decide)).mp hopen
    have hclose := (run_expect_eq_ok (by decide)).mp hclose
    exact ⟨body, rfl, passes_append.mpr ⟨after, passes_append.mpr ⟨inner, hopen, hbody⟩, hclose⟩⟩
  · rintro ⟨body, rfl, hpasses⟩
    obtain ⟨after, hfront, hclose⟩ := passes_append.mp hpasses
    have hfront : Passes ([.leftBrace] ++ body.flatMap Statement.kinds) tokens after := hfront
    obtain ⟨inner, hopen, hbody⟩ := passes_append.mp hfront
    have hstop : (peek after).kind = .rightBrace := peek_of_passes hclose
    refine ⟨(), inner, (run_expect_eq_ok (by decide)).mpr hopen, ?_⟩
    refine run_bind_eq_ok.mpr ⟨body.map Statement.tree, after, ?_, ?_⟩
    · exact repeats_statement.run_many_eq_ok.mpr ⟨body, rfl, hbody, by rw [hstop]; rfl⟩
    · exact run_bind_eq_ok.mpr ⟨(), rest, (run_expect_eq_ok (by decide)).mpr hclose, rfl⟩

/-! ### Functions and programs -/

/-- What stands between the parentheses of a function. -/
theorem run_parameters_eq_ok {f : ParseM Node} {node : Node} {tokens rest : List Token} :
    run (do
      if (← kind) = .keywordVoid then pass
      expect .rightParen "function declarator"
      f) tokens = (.ok node, rest) ↔
      ∃ void middle, Passes (Definition.parameterKinds void ++ [.rightParen]) tokens middle ∧
        run f middle = (.ok node, rest) := by
  have hclose : ∀ {tokens}, run (do expect .rightParen "function declarator"; f) tokens =
      (.ok node, rest) ↔ ∃ middle, Passes [.rightParen] tokens middle ∧
        run f middle = (.ok node, rest) := by
    intro tokens
    rw [run_bind_eq_ok]
    constructor
    · rintro ⟨u, middle, hexpect, hf⟩
      exact ⟨middle, (run_expect_eq_ok (by decide)).mp hexpect, hf⟩
    · rintro ⟨middle, hpasses, hf⟩
      exact ⟨(), middle, (run_expect_eq_ok (by decide)).mpr hpasses, hf⟩
  rw [run_kind_bind]
  dsimp only
  constructor
  · intro h
    split at h
    · rename_i hkind
      rw [run_pass_bind] at h
      obtain ⟨middle, hpasses, hf⟩ := hclose.mp h
      have hword := (passes_singleton (by decide)).mpr ⟨hkind, rfl⟩
      exact ⟨true, middle, passes_append.mpr ⟨tokens.tail, hword, hpasses⟩, hf⟩
    · obtain ⟨middle, hpasses, hf⟩ := hclose.mp h
      exact ⟨false, middle, hpasses, hf⟩
  · rintro ⟨void, middle, hpasses, hf⟩
    cases void with
    | false =>
        have hkind : (peek tokens).kind = .rightParen := peek_of_passes hpasses
        rw [if_neg (by rw [hkind]; decide)]
        exact hclose.mpr ⟨middle, hpasses, hf⟩
    | true =>
        obtain ⟨after, hword, hpasses⟩ := passes_append.mp hpasses
        obtain ⟨hkind, rfl⟩ := (passes_singleton (by decide)).mp hword
        rw [if_pos hkind, run_pass_bind]
        exact hclose.mpr ⟨middle, hpasses, hf⟩

theorem passes_definition {d : Definition} {tokens rest : List Token} :
    Passes d.kinds tokens rest ↔
      ∃ afterType, Passes [.keywordInt] tokens afterType ∧
        ∃ afterName, Passes [.identifier d.name] afterType afterName ∧
          ∃ afterOpen, Passes [.leftParen] afterName afterOpen ∧
            ∃ afterClose, Passes (Definition.parameterKinds d.void ++ [.rightParen]) afterOpen
              afterClose ∧ Passes (blockKinds d.body) afterClose rest := by
  have hkinds : d.kinds = [.keywordInt] ++ ([.identifier d.name] ++ ([.leftParen] ++
      ((Definition.parameterKinds d.void ++ [.rightParen]) ++ blockKinds d.body))) := by
    simp [Definition.kinds]
  rw [hkinds]
  simp only [passes_append]

theorem run_functionDefinition_eq_ok {node : Node} {tokens rest : List Token} :
    run functionDefinition tokens = (.ok node, rest) ↔
      ∃ d : Definition, node = d.tree ∧ Passes d.kinds tokens rest := by
  rw [functionDefinition, run_bind_eq_ok]
  constructor
  · rintro ⟨type, afterType, htype, h⟩
    obtain ⟨name, afterName, hname, h⟩ := run_bind_eq_ok.mp h
    obtain ⟨u, afterOpen, hopen, h⟩ := run_bind_eq_ok.mp h
    obtain ⟨void, afterClose, hclose, h⟩ := run_parameters_eq_ok.mp h
    obtain ⟨block, last, hblock, hpure⟩ := run_bind_eq_ok.mp h
    obtain ⟨rfl, rfl⟩ := run_pure_eq_ok.mp hpure
    obtain ⟨body, rfl, hbody⟩ := run_compoundStatement_eq_ok.mp hblock
    have htype := run_typeSpecifier_eq_ok.mp htype
    have hname := run_declarator_eq_ok.mp hname
    have hopen := (run_expect_eq_ok (by decide)).mp hopen
    refine ⟨⟨name, void, body⟩, rfl, passes_definition.mpr ?_⟩
    exact ⟨afterType, htype, afterName, hname, afterOpen, hopen, afterClose, hclose, hbody⟩
  · rintro ⟨d, rfl, hpasses⟩
    obtain ⟨afterType, htype, afterName, hname, afterOpen, hopen, afterClose, hclose, hbody⟩ :=
      passes_definition.mp hpasses
    refine ⟨.int, afterType, run_typeSpecifier_eq_ok.mpr htype, ?_⟩
    refine run_bind_eq_ok.mpr ⟨d.name, afterName, run_declarator_eq_ok.mpr hname, ?_⟩
    refine run_bind_eq_ok.mpr ⟨(), afterOpen, (run_expect_eq_ok (by decide)).mpr hopen, ?_⟩
    refine run_parameters_eq_ok.mpr ⟨d.void, afterClose, hclose, ?_⟩
    exact run_bind_eq_ok.mpr ⟨blockTree d.body, rest,
      run_compoundStatement_eq_ok.mpr ⟨d.body, rfl, hbody⟩, rfl⟩

theorem repeats_functionDefinition :
    Repeats (· != .endOfFile) functionDefinition Definition.kinds Definition.tree where
  stops := rfl
  reads := run_functionDefinition_eq_ok
  starts _ := ⟨_, _, rfl, rfl⟩

theorem run_program_eq_ok {node : Node} {tokens rest : List Token} :
    run program tokens = (.ok node, rest) ↔
      ∃ p : Program, p ≠ [] ∧ node = p.tree ∧ Passes p.kinds tokens rest ∧
        (peek rest).kind = .endOfFile := by
  rw [program, run_bind_eq_ok]
  constructor
  · rintro ⟨items, after, hitems, h⟩
    obtain ⟨p, rfl, hpasses, hstop⟩ := repeats_functionDefinition.run_many_eq_ok.mp hitems
    dsimp only at h
    split at h
    · cases h
    · rename_i hne
      obtain ⟨rfl, rfl⟩ := run_pure_eq_ok.mp h
      refine ⟨p, ?_, ?_, hpasses, by simpa using hstop⟩
      · rintro rfl
        exact hne rfl
      · simp [Program.tree]
  · rintro ⟨p, hne, rfl, hpasses, hstop⟩
    refine ⟨p.map Definition.tree, rest, ?_, ?_⟩
    · exact repeats_functionDefinition.run_many_eq_ok.mpr ⟨p, rfl, hpasses, by rw [hstop]; rfl⟩
    · dsimp only
      rw [if_neg (by simpa using hne)]
      exact run_pure_eq_ok.mpr ⟨by simp [Program.tree], rfl⟩

end MicroC.Parse

namespace MicroC

open Grammar

/-- A list of tokens parses exactly if it is a sentence up to its first end of
text or up to its end. -/
theorem parse_eq_ok {node : Node} {tokens : List Token} :
    parse tokens = .ok node ↔
      ∃ p : Program, p ≠ [] ∧ node = p.tree ∧
        ∃ rest, Parse.Passes p.kinds tokens rest ∧ (Parse.peek rest).kind = .endOfFile := by
  have hparse : parse tokens = (Parse.run Parse.program tokens).1 := rfl
  rw [hparse]
  constructor
  · intro h
    obtain ⟨p, hne, hnode, hpasses, hstop⟩ := Parse.run_program_eq_ok.mp (Prod.ext h rfl)
    exact ⟨p, hne, hnode, _, hpasses, hstop⟩
  · rintro ⟨p, hne, hnode, rest, hpasses, hstop⟩
    rw [Parse.run_program_eq_ok.mpr ⟨p, hne, hnode, hpasses, hstop⟩]

end MicroC
