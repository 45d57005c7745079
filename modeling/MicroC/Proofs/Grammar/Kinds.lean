import MicroC.Proofs.Grammar.Reading
import MicroC.Proofs.Token.Gaps

/-!
Reading hangs on the kinds of the tokens. Where a token stands shows only in the place of an
error, so that texts whose tokens have the same kinds are read as the same tree or refused with
the same words. Layout has no part in the kinds.
-/

namespace MicroC

open Token (Kind)

namespace Parse

/-! ### Readers that see kinds only -/

/-- Tokens of the same kinds, wherever they stand. -/
def SameKinds (tokens tokens' : List Token) : Prop :=
  tokens.map (·.kind) = tokens'.map (·.kind)

/-- The same complaint, wherever it is made. -/
inductive SameFault : ParseError → ParseError → Prop
  | unexpected {found found' : Token} (expected : String) (h : found.kind = found'.kind) :
      SameFault (.unexpected expected found) (.unexpected expected found')
  | emptyProgram (location location' : Location) :
      SameFault (.emptyProgram location) (.emptyProgram location')

/-- The same result or the same complaint, with the same kinds of token left. -/
inductive Alike {α : Type} :
    Except ParseError α × List Token → Except ParseError α × List Token → Prop
  | ok {rest rest' : List Token} (a : α) (h : SameKinds rest rest') :
      Alike (.ok a, rest) (.ok a, rest')
  | error {rest rest' : List Token} {fault fault' : ParseError} (hfault : SameFault fault fault')
      (h : SameKinds rest rest') : Alike (.error fault, rest) (.error fault', rest')

/-- A reader that cannot tell tokens of the same kinds apart. -/
def SeesKinds {α : Type} (p : ParseM α) : Prop :=
  ∀ ⦃tokens tokens' : List Token⦄, SameKinds tokens tokens' → Alike (run p tokens) (run p tokens')

namespace SameKinds

variable {tokens tokens' : List Token}

theorem peek (h : SameKinds tokens tokens') : (peek tokens).kind = (peek tokens').kind := by
  rw [SameKinds] at h
  cases tokens <;> cases tokens' <;> simp_all [Parse.peek]

theorem tail (h : SameKinds tokens tokens') : SameKinds tokens.tail tokens'.tail := by
  rw [SameKinds, List.map_tail, List.map_tail, h]

theorem length_eq (h : SameKinds tokens tokens') : tokens.length = tokens'.length := by
  simpa using congrArg List.length h

end SameKinds

variable {α β : Type}

theorem seesKinds_pure (a : α) : SeesKinds (pure a) := fun _ _ h => .ok a h

theorem SeesKinds.bind {x : ParseM α} {f : α → ParseM β} (hx : SeesKinds x)
    (hf : ∀ a, SeesKinds (f a)) : SeesKinds (x >>= f) := by
  intro tokens tokens' h
  have hfirst := hx h
  rw [run_bind, run_bind]
  generalize run x tokens = outcome at hfirst ⊢
  generalize run x tokens' = outcome' at hfirst ⊢
  cases hfirst with
  | ok a hrest => exact hf a hrest
  | error hfault hrest => exact .error hfault hrest

theorem SeesKinds.map {x : ParseM α} (hx : SeesKinds x) (f : α → β) : SeesKinds (f <$> x) :=
  hx.bind fun a => seesKinds_pure (f a)

theorem seesKinds_kind : SeesKinds kind := by
  intro tokens tokens' h
  have hkind : ∀ tokens, run kind tokens = (.ok (peek tokens).kind, tokens) := fun _ => rfl
  rw [hkind, hkind, h.peek]
  exact .ok _ h

theorem seesKinds_pass : SeesKinds pass := fun _ _ h => .ok () h.tail

theorem seesKinds_unexpected (expected : String) : SeesKinds (unexpected expected : ParseM α) :=
  fun _ _ h => .error (.unexpected expected h.peek) h

/-! ### Productions -/

theorem seesKinds_expect (wanted : Kind) (place : String) : SeesKinds (expect wanted place) := by
  refine seesKinds_kind.bind fun kind => ?_
  split
  · exact seesKinds_pass
  · exact seesKinds_unexpected _

theorem seesKinds_typeSpecifier : SeesKinds typeSpecifier := by
  refine seesKinds_kind.bind fun kind => ?_
  split
  · exact seesKinds_pass.bind fun _ => seesKinds_pure _
  · exact seesKinds_unexpected _

theorem seesKinds_declarator : SeesKinds declarator := by
  refine seesKinds_kind.bind fun kind => ?_
  split
  · exact seesKinds_pass.bind fun _ => seesKinds_pure _
  · exact seesKinds_unexpected _

theorem seesKinds_expression : SeesKinds expression := by
  refine seesKinds_kind.bind fun kind => ?_
  split
  · exact seesKinds_pass.bind fun _ => seesKinds_pure _
  · exact seesKinds_pass.bind fun _ => seesKinds_pure _
  · exact seesKinds_unexpected _

theorem seesKinds_returned : SeesKinds returned := by
  have hend : ∀ value : Option Node,
      SeesKinds (do expect .semicolon "return statement"; return Node.ret value) :=
    fun value => (seesKinds_expect _ _).bind fun _ => seesKinds_pure _
  refine seesKinds_kind.bind fun kind => ?_
  dsimp only
  split
  · exact (seesKinds_pure none).bind hend
  · exact (seesKinds_expression.map some).bind hend

theorem seesKinds_statement : SeesKinds statement := by
  refine seesKinds_kind.bind fun kind => ?_
  split
  · exact seesKinds_pass.bind fun _ => seesKinds_returned.map some
  · exact seesKinds_pass.bind fun _ => seesKinds_pure _
  · exact seesKinds_unexpected _

theorem alike_atMost {item : ParseM α} (hitem : SeesKinds item) (more : Kind → Bool) (limit : Nat)
    {tokens tokens' : List Token} (h : SameKinds tokens tokens') :
    Alike (atMost more item limit tokens) (atMost more item limit tokens') := by
  induction limit generalizing tokens tokens' with
  | zero => exact .ok [] h
  | succ limit ih =>
      rw [atMost, atMost, h.peek]
      split
      · have hfirst : Alike (item.run tokens) (item.run tokens') := hitem h
        generalize item.run tokens = outcome at hfirst ⊢
        generalize item.run tokens' = outcome' at hfirst ⊢
        cases hfirst with
        | error hfault hrest => exact .error hfault hrest
        | @ok rest rest' a hrest =>
            have hlater := ih hrest
            dsimp only
            generalize atMost more item limit rest = outcome at hlater ⊢
            generalize atMost more item limit rest' = outcome' at hlater ⊢
            cases hlater with
            | ok items hlast => exact .ok (a :: items) hlast
            | error hfault hlast => exact .error hfault hlast
      · exact .ok [] h

/-- There are as many tokens in both lists, so the limit is the same. -/
theorem SeesKinds.many {item : ParseM α} (hitem : SeesKinds item) (more : Kind → Bool) :
    SeesKinds (many more item) := by
  intro tokens tokens' h
  have hmany : ∀ tokens, run (Parse.many more item) tokens =
      atMost more item tokens.length tokens := fun _ => rfl
  rw [hmany, hmany, h.length_eq]
  exact alike_atMost hitem more _ h

theorem seesKinds_compoundStatement : SeesKinds compoundStatement := by
  refine (seesKinds_expect _ _).bind fun _ => ?_
  refine (seesKinds_statement.many _).bind fun entries => ?_
  exact (seesKinds_expect _ _).bind fun _ => seesKinds_pure _

theorem seesKinds_functionDefinition : SeesKinds functionDefinition := by
  refine seesKinds_typeSpecifier.bind fun type => ?_
  refine seesKinds_declarator.bind fun name => ?_
  refine (seesKinds_expect _ _).bind fun _ => ?_
  have hrest : ∀ _ : Unit, SeesKinds (do
      expect .rightParen "function declarator"
      let body ← compoundStatement
      return Node.function type name (some body)) := fun _ =>
    (seesKinds_expect _ _).bind fun _ => seesKinds_compoundStatement.bind fun _ => seesKinds_pure _
  refine seesKinds_kind.bind fun kind => ?_
  dsimp only
  split
  · exact seesKinds_pass.bind hrest
  · exact hrest ()

theorem seesKinds_program : SeesKinds program := by
  refine (seesKinds_functionDefinition.many _).bind fun items => ?_
  dsimp only
  split
  · exact fun _ _ h => .error (.emptyProgram _ _) h
  · exact seesKinds_pure _

end Parse

/-! ### Texts -/

/-- Both texts are read as the same tree, or both are refused with the same words. -/
inductive ReadAlike : Except (Halt Diagnostic) Node → Except (Halt Diagnostic) Node → Prop
  | tree (root : Node) : ReadAlike (.ok root) (.ok root)
  | fault (location location' : Location) (reason : String) :
      ReadAlike (.error (.failure (.grammar location reason)))
        (.error (.failure (.grammar location' reason)))

theorem readAlike_of_kinds {file file' source source' : String} {tokens tokens' : List Token}
    (h : tokenize file source = .ok tokens) (h' : tokenize file' source' = .ok tokens')
    (hkinds : tokens.map (·.kind) = tokens'.map (·.kind)) :
    ReadAlike (readProgram file source).1 (readProgram file' source').1 := by
  have halike := Parse.seesKinds_program hkinds
  have hparse : ∀ tokens, parse tokens = (Parse.run Parse.program tokens).1 := fun _ => rfl
  simp only [readProgram, h, h', hparse]
  generalize Parse.run Parse.program tokens = outcome at halike ⊢
  generalize Parse.run Parse.program tokens' = outcome' at halike ⊢
  cases halike with
  | ok root => exact .tree root
  | error hfault =>
      cases hfault with
      | unexpected expected hfound =>
          simp only [ParseError.toDiagnostic, hfound]
          exact .fault _ _ _
      | emptyProgram location location' => exact .fault location location' _

/-- The text of a program can be divided such that any complete layout may stand in its gaps, and
none where a mark is next to it. Whatever stands there, the tokens have the same kinds, and the
texts are read as the same tree or refused with the same words. -/
theorem readProgram_relaid {file source : String} {tokens : List Token}
    (h : tokenize file source = .ok tokens) :
    ∃ pieces last, Divides source.toList pieces last ∧
      ∀ pieces' last', Piece.Relaid pieces pieces' → Layout.Trailing last' →
        ∀ file' source', source'.toList = Piece.join pieces' last' →
          source'.length < 2 ^ 32 - 1 →
          ∃ tokens', tokenize file' source' = .ok tokens' ∧
            tokens'.map (·.kind) = tokens.map (·.kind) ∧
            ReadAlike (readProgram file source).1 (readProgram file' source').1 := by
  obtain ⟨pieces, last, hdivides, htokens⟩ := Cursor.exists_divides (.start source) h
  refine ⟨pieces, last, hdivides, ?_⟩
  intro pieces' last' hrelaid hlast file' source' htext hlength
  have hspells : Spells source'.toList (pieces'.map (·.kind) ++ [.endOfFile]) :=
    htext ▸ (hdivides.relaid hrelaid hlast).spells
  obtain ⟨tokens', htokens', hkinds'⟩ := (exists_tokenize_iff file' hlength).mpr hspells
  have hkinds : tokens'.map (·.kind) = tokens.map (·.kind) := by
    rw [hkinds', hrelaid.map_kind, htokens, Piece.map_kind_tokens]
  exact ⟨tokens', htokens', hkinds, readAlike_of_kinds h htokens' hkinds.symm⟩

/-- Comments that hold the marks of other comments, around and between the tokens. -/
theorem readProgram_relaid_comments :
    tokenize "a.c" "int f (" = .ok
        [⟨.keywordInt, ⟨"a.c", 1, 1⟩, ⟨"a.c", 1, 4⟩⟩,
          ⟨.identifier "f", ⟨"a.c", 1, 5⟩, ⟨"a.c", 1, 6⟩⟩,
          ⟨.leftParen, ⟨"a.c", 1, 7⟩, ⟨"a.c", 1, 8⟩⟩,
          ⟨.endOfFile, ⟨"a.c", 1, 8⟩, ⟨"a.c", 1, 8⟩⟩] ∧
      (∃ tokens', tokenize "b.c" "//*\nint/*//*/f(//*" = .ok tokens' ∧
        tokens'.map (·.kind) = [.keywordInt, .identifier "f", .leftParen, .endOfFile]) ∧
      ReadAlike (readProgram "a.c" "int f (").1 (readProgram "b.c" "//*\nint/*//*/f(//*").1 := by
  have htokens : tokenize "a.c" "int f (" = .ok
      [⟨.keywordInt, ⟨"a.c", 1, 1⟩, ⟨"a.c", 1, 4⟩⟩, ⟨.identifier "f", ⟨"a.c", 1, 5⟩, ⟨"a.c", 1, 6⟩⟩,
        ⟨.leftParen, ⟨"a.c", 1, 7⟩, ⟨"a.c", 1, 8⟩⟩,
        ⟨.endOfFile, ⟨"a.c", 1, 8⟩, ⟨"a.c", 1, 8⟩⟩] := by cbv
  have hparen := Divides.piece (p := ⟨[' '], ['('], .leftParen⟩) (.blank (by decide) .nil)
    (.mark .leftParen) (.finish (.closed .nil))
  have hname := Divides.piece (p := ⟨[' '], ['f'], .identifier "f"⟩) (.blank (by decide) .nil)
    (.word (by decide) (.name (by decide)) (by simp; decide)) hparen
  have hint := Divides.piece (p := ⟨[], ['i', 'n', 't'], .keywordInt⟩) .nil
    (.word (by decide) .int (by simp; decide)) hname
  obtain ⟨pieces, last, hdivides, hall⟩ := readProgram_relaid htokens
  obtain ⟨rfl, rfl⟩ := hdivides.unique hint
  have hline : Layout.Spelled ['/', '/', '*', '\n'] :=
    @Layout.Spelled.lineComment ['*'] [] (by decide) .nil
  have hblock : Layout.Spelled ['/', '*', '/', '/', '*', '/'] :=
    @Layout.Spelled.blockComment ['/', '/'] [] (by decide) .nil
  have hrelaid : Piece.Relaid
      [⟨[], ['i', 'n', 't'], .keywordInt⟩, ⟨[' '], ['f'], .identifier "f"⟩,
        ⟨[' '], ['('], .leftParen⟩]
      [⟨['/', '/', '*', '\n'], ['i', 'n', 't'], .keywordInt⟩,
        ⟨['/', '*', '/', '/', '*', '/'], ['f'], .identifier "f"⟩, ⟨[], ['('], .leftParen⟩] := by
    refine ⟨by simp, ?_, ?_⟩
    · simp only [List.forall_mem_cons]
      exact ⟨hline, hblock, .nil, List.forall_mem_nil _⟩
    · refine .cons_cons (fun _ _ => List.cons_ne_nil _ _) ?_
      exact .cons_cons (fun _ h => by cases h) (.singleton _)
  obtain ⟨tokens', htokens', hkinds, hread⟩ := hall _ _ hrelaid
    (@Layout.Trailing.lineComment [] ['*'] .nil (by decide)) "b.c" "//*\nint/*//*/f(//*" rfl
    (by decide)
  exact ⟨htokens, ⟨tokens', htokens', hkinds⟩, hread⟩

end MicroC
