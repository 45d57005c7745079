import MicroC.Proofs.Grammar.Language

/-!
What is wrong where reading fails. A reader looks at one token beyond those that it passes,
and it passes a token only if a sentence may go on with it. So the tokens that were passed
when it fails begin some sentence, and with the next token they begin none: whatever came
after that token, the reader would have failed there.
-/

namespace MicroC.Parse

open Token (Kind)
open Grammar
open Computability

/-! ### One token ahead -/

/-- How a reader of a language ends that has passed `front` and stands before `rest`: with a
word of the language, or within one and with a complaint about the next token. -/
inductive Ends {α : Type} (L : Language Kind) (front rest : List Token) : Except ParseError α → Prop
  | ok {a : α} (h : front.map (·.kind) ∈ L) : Ends L front rest (.ok a)
  | error {expected : String} {more : List Kind} (h : front.map (·.kind) ++ more ∈ L) :
      Ends L front rest (.error (.unexpected expected (peek rest)))

/-- What a reader makes of `tokens` hangs on those that it passes and on the next one. -/
def Predicts {α : Type} (item : ParseM α) (L : Language Kind) (tokens : List Token) : Prop :=
  ∃ front rest result, tokens = front ++ rest ∧ Ends L front rest result ∧
    ∀ rest', peek rest' = peek rest → run item (front ++ rest') = (result, rest')

theorem peek_append {front rest rest' : List Token} (h : peek rest' = peek rest) :
    peek (front ++ rest') = peek (front ++ rest) := by
  cases front with
  | nil => exact h
  | cons t front => rfl

namespace Ends

variable {α : Type} {L L' : Language Kind} {front rest : List Token} {result : Except ParseError α}

theorem mono (h : Ends L front rest result) (hL : ∀ word ∈ L, word ∈ L') :
    Ends L' front rest result := by
  cases h with
  | ok hword => exact .ok (hL _ hword)
  | error hword => exact .error (hL _ hword)

/-- A word of another language was passed before. -/
theorem append {passed : List Token} (hpassed : passed.map (·.kind) ∈ L)
    (h : Ends L' front rest result) : Ends (L * L') (passed ++ front) rest result := by
  cases h with
  | ok hword =>
      refine .ok ?_
      rw [List.map_append]
      exact Language.append_mem_mul hpassed hword
  | error hword =>
      have hboth := Language.append_mem_mul hpassed hword
      rw [← List.append_assoc, ← List.map_append] at hboth
      exact .error hboth

theorem map {β : Type} (f : α → β) (h : Ends L front rest result) :
    Ends L front rest (result.map f) := by
  cases h with
  | ok hword => exact .ok hword
  | error hword => exact .error hword

end Ends

namespace Predicts

variable {α β : Type} {L L' : Language Kind} {tokens : List Token}

theorem run_eq {item : ParseM α} {result : Except ParseError α} {rest : List Token}
    (h : Predicts item L tokens) (hrun : run item tokens = (result, rest)) :
    ∃ front, tokens = front ++ rest ∧ Ends L front rest result ∧
      ∀ rest', peek rest' = peek rest → run item (front ++ rest') = (result, rest') := by
  obtain ⟨front, rest, result, rfl, hends, hlocal⟩ := h
  rw [hlocal rest rfl] at hrun
  cases hrun
  exact ⟨front, rfl, hends, hlocal⟩

theorem exists_word {item : ParseM α} (h : Predicts item L tokens) : ∃ word, word ∈ L := by
  obtain ⟨front, rest, result, -, hword | hword, -⟩ := h
  · exact ⟨_, hword⟩
  · exact ⟨_, hword⟩

theorem mono {item : ParseM α} (h : Predicts item L tokens) (hL : ∀ word ∈ L, word ∈ L') :
    Predicts item L' tokens := by
  obtain ⟨front, rest, result, htokens, hends, hlocal⟩ := h
  exact ⟨front, rest, result, htokens, hends.mono hL, hlocal⟩

theorem pure (a : α) (tokens : List Token) : Predicts (Pure.pure a) 1 tokens :=
  ⟨[], tokens, .ok a, rfl, .ok rfl, fun _ _ => rfl⟩

theorem unexpected {expected : String} (hL : ∃ word, word ∈ L) (tokens : List Token) :
    Predicts (Parse.unexpected expected : ParseM α) L tokens := by
  obtain ⟨word, hword⟩ := hL
  have hword : ([] : List Token).map (·.kind) ++ word ∈ L := hword
  refine ⟨[], tokens, .error (.unexpected expected (peek tokens)), rfl, .error hword,
    fun rest hpeek => ?_⟩
  rw [List.nil_append, run_unexpected, hpeek]

theorem bind [Nonempty α] {x : ParseM α} {f : α → ParseM β} (hx : Predicts x L tokens)
    (hf : ∀ a rest, Predicts (f a) L' rest) : Predicts (x >>= f) (L * L') tokens := by
  obtain ⟨front, middle, result, rfl, hends, hlocal⟩ := hx
  cases hends with
  | @error expected more hword =>
      -- The word that was begun goes on with one that the second reader would have read.
      obtain ⟨word, hword'⟩ := (hf (Classical.arbitrary α) []).exists_word
      have hboth := Language.append_mem_mul hword hword'
      rw [List.append_assoc] at hboth
      refine ⟨front, middle, .error (.unexpected expected (peek middle)), rfl, .error hboth,
        fun rest hpeek => ?_⟩
      rw [run_bind, hlocal rest hpeek]
  | @ok a hword =>
      obtain ⟨front', rest, result', rfl, hends', hlocal'⟩ := hf a middle
      refine ⟨front ++ front', rest, result', (List.append_assoc ..).symm, hends'.append hword,
        fun rest' hpeek => ?_⟩
      rw [List.append_assoc, run_bind, hlocal _ (peek_append hpeek)]
      exact hlocal' rest' hpeek

theorem bind_pure [Nonempty α] {x : ParseM α} (f : α → β) (h : Predicts x L tokens) :
    Predicts (x >>= fun a => Pure.pure (f a)) L tokens := by
  rw [← mul_one L]
  exact h.bind fun a rest => pure (f a) rest

theorem kind_bind {f : Kind → ParseM α} (h : Predicts (f (peek tokens).kind) L tokens) :
    Predicts (kind >>= f) L tokens := by
  obtain ⟨front, rest, result, rfl, hends, hlocal⟩ := h
  refine ⟨front, rest, result, rfl, hends, fun rest' hpeek => ?_⟩
  rw [run_kind_bind, peek_append hpeek]
  exact hlocal rest' hpeek

/-- A token of a known kind is passed. -/
theorem pass_bind {f : Unit → ParseM α} {kind : Kind} (hkind : (peek tokens).kind = kind)
    (hne : kind ≠ .endOfFile) (h : Predicts (f ()) L tokens.tail) :
    Predicts (pass >>= f) ({[kind]} * L) tokens := by
  cases tokens with
  | nil => exact absurd hkind.symm hne
  | cons t tokens =>
      obtain ⟨front, rest, result, rfl, hends, hlocal⟩ := h
      have ht : [t].map (·.kind) ∈ ({[kind]} : Language Kind) := congrArg (fun k => [k]) hkind
      exact ⟨t :: front, rest, result, rfl, hends.append ht, fun rest' hpeek => hlocal rest' hpeek⟩

theorem pass_pure {kind : Kind} (hkind : (peek tokens).kind = kind) (hne : kind ≠ .endOfFile)
    (hword : [kind] ∈ L) (a : α) : Predicts (do pass; return a) L tokens := by
  refine (pass_bind hkind hne (pure a tokens.tail)).mono ?_
  rintro word hmem
  rw [mul_one] at hmem
  obtain rfl : word = [kind] := hmem
  exact hword

end Predicts

/-! ### Repetition -/

section Repetition

variable {α : Type} {more : Kind → Bool} {item : ParseM α} {L : Language Kind}

theorem atMost_of_not_more {limit : Nat} {tokens : List Token}
    (h : more (peek tokens).kind = false) : atMost more item limit tokens = (.ok [], tokens) := by
  cases limit with
  | zero => rfl
  | succ limit => simp [atMost, h]

/-- The limit is not reached before an item is read. -/
theorem atMost_of_more {limit : Nat} {tokens : List Token} (hstop : more .endOfFile = false)
    (hmore : more (peek tokens).kind = true) (hlimit : tokens.length ≤ limit) :
    ∃ limit', limit = limit' + 1 ∧ atMost more item limit tokens =
      match run item tokens with
      | (.error e, rest) => (.error e, rest)
      | (.ok a, rest) => ((atMost more item limit' rest).1.map (a :: ·),
          (atMost more item limit' rest).2) := by
  cases limit with
  | zero =>
      obtain rfl := List.length_eq_zero_iff.mp (Nat.le_zero.mp hlimit)
      exact absurd (hstop.symm.trans hmore) Bool.false_ne_true
  | succ limit =>
      refine ⟨limit, rfl, ?_⟩
      rw [atMost, if_pos hmore]
      rfl

/-- The loop reads a sequence of words, and like each of its items it looks at one token beyond
those that it passes. A limit that the tokens stay below plays no part in it. -/
theorem exists_atMost_eq (hstop : more .endOfFile = false) (hL : [] ∉ L)
    (hitem : ∀ tokens, Predicts item L tokens) (tokens : List Token) :
    ∃ front rest result, tokens = front ++ rest ∧ Ends (L∗) front rest result ∧
      ∀ rest' limit, peek rest' = peek rest → (front ++ rest').length ≤ limit →
        atMost more item limit (front ++ rest') = (result, rest') := by
  have hsub : ∀ word ∈ L, word ∈ L∗ := le_kstar (a := L)
  have hmul : ∀ word ∈ L * L∗, word ∈ L∗ := mul_kstar_le_kstar (a := L)
  induction hlength : tokens.length using Nat.strong_induction_on generalizing tokens with
  | _ length ih =>
      subst hlength
      cases hmore : more (peek tokens).kind with
      | false =>
          refine ⟨[], tokens, .ok [], rfl, .ok (Language.nil_mem_kstar L),
            fun rest' limit hpeek _ => ?_⟩
          exact atMost_of_not_more (by rw [List.nil_append, hpeek]; exact hmore)
      | true =>
          obtain ⟨front, middle, result, rfl, hends, hlocal⟩ := hitem tokens
          have hagain : ∀ {rest'}, peek rest' = peek middle →
              more (peek (front ++ rest')).kind = true := by
            intro rest' hpeek
            rw [peek_append hpeek, hmore]
          cases hends with
          | @error expected word hword =>
              refine ⟨front, middle, .error (.unexpected expected (peek middle)), rfl,
                .error (hsub _ hword), fun rest' limit hpeek hlimit => ?_⟩
              obtain ⟨limit', rfl, hloop⟩ := atMost_of_more hstop (hagain hpeek) hlimit
              rw [hloop, hlocal rest' hpeek]
          | @ok a hword =>
              -- An item passes a token at least, so the limit that is left is not too low.
              have hfront : 0 < front.length := by
                refine List.length_pos_iff.mpr ?_
                rintro rfl
                exact hL hword
              have hmiddle : middle.length < (front ++ middle).length := by
                rw [List.length_append]
                omega
              obtain ⟨front', rest, result', rfl, hends', hlocal'⟩ := ih _ hmiddle middle rfl
              refine ⟨front ++ front', rest, result'.map (a :: ·), (List.append_assoc ..).symm,
                ((hends'.append hword).mono hmul).map _, fun rest' limit hpeek hlimit => ?_⟩
              rw [List.append_assoc] at hlimit ⊢
              have hpeek' : peek (front' ++ rest') = peek (front' ++ rest) := peek_append hpeek
              obtain ⟨limit', rfl, hloop⟩ := atMost_of_more hstop (hagain hpeek') hlimit
              rw [List.length_append] at hlimit
              rw [hloop, hlocal _ hpeek']
              dsimp only
              rw [hlocal' rest' limit' hpeek (by omega)]

theorem Predicts.many (hstop : more .endOfFile = false) (hL : [] ∉ L)
    (hitem : ∀ tokens, Predicts item L tokens) (tokens : List Token) :
    Predicts (many more item) (L∗) tokens := by
  obtain ⟨front, rest, result, htokens, hends, hloop⟩ := exists_atMost_eq hstop hL hitem tokens
  exact ⟨front, rest, result, htokens, hends, fun rest' hpeek => hloop rest' _ hpeek le_rfl⟩

end Repetition

/-! ### The productions -/

/-- What the derivations of a production read off. -/
def words {δ : Type} (kinds : δ → List Kind) : Language Kind := {word | ∃ d, kinds d = word}

theorem kinds_mem_words {δ : Type} (kinds : δ → List Kind) (d : δ) : kinds d ∈ words kinds :=
  ⟨d, rfl⟩

/-- A sequence of words of a production reads off a sequence of derivations. -/
theorem exists_flatMap_of_mem_kstar {δ : Type} {kinds : δ → List Kind} {word : List Kind}
    (h : word ∈ (words kinds)∗) : ∃ ds : List δ, ds.flatMap kinds = word := by
  obtain ⟨parts, rfl, hparts⟩ := Language.mem_kstar.mp h
  clear h
  induction parts with
  | nil => exact ⟨[], rfl⟩
  | cons part parts ih =>
      obtain ⟨d, rfl⟩ := hparts part List.mem_cons_self
      obtain ⟨ds, hds⟩ := ih fun word hword => hparts word (List.mem_cons_of_mem _ hword)
      exact ⟨d :: ds, by rw [List.flatMap_cons, hds, List.flatten_cons]⟩

namespace Predicts

theorem expect {wanted : Kind} (hwanted : wanted ≠ .endOfFile) (place : String)
    (tokens : List Token) : Predicts (expect wanted place) {[wanted]} tokens := by
  have hword : [wanted] ∈ ({[wanted]} : Language Kind) := rfl
  apply kind_bind
  split
  · rename_i hkind
    exact pass_pure hkind hwanted hword ()
  · exact unexpected ⟨_, hword⟩ tokens

theorem typeSpecifier (tokens : List Token) : Predicts typeSpecifier (words typeKinds) tokens := by
  apply kind_bind
  split
  · rename_i hkind
    exact pass_pure hkind (by decide) (kinds_mem_words typeKinds .int) _
  · exact unexpected ⟨_, kinds_mem_words typeKinds .int⟩ tokens

theorem declarator (tokens : List Token) : Predicts declarator (words declaratorKinds) tokens := by
  apply kind_bind
  split
  · rename_i name hkind
    exact pass_pure hkind (by simp) (kinds_mem_words declaratorKinds name) _
  · exact unexpected ⟨_, kinds_mem_words declaratorKinds "f"⟩ tokens

theorem expression (tokens : List Token) : Predicts expression (words Expression.kinds) tokens := by
  apply kind_bind
  split
  · rename_i value hkind
    exact pass_pure hkind (by simp) (kinds_mem_words Expression.kinds (.literal value)) _
  · rename_i name hkind
    exact pass_pure hkind (by simp) (kinds_mem_words Expression.kinds (.named name)) _
  · exact unexpected ⟨_, kinds_mem_words Expression.kinds (.literal 0)⟩ tokens

instance : Nonempty Node := ⟨.list []⟩

instance : Nonempty TypeSpecifier := ⟨.int⟩

theorem returned (tokens : List Token) :
    Predicts returned (words Statement.valueKinds) tokens := by
  have hfinish : ∀ (value : Option Node) (rest : List Token),
      Predicts (do Parse.expect .semicolon "return statement"; return Node.ret value)
        {[.semicolon]} rest := fun value rest => (expect (by decide) _ rest).bind_pure _
  apply kind_bind
  dsimp only
  split
  · refine ((pure none tokens).bind hfinish).mono ?_
    rintro - ⟨-, rfl, -, rfl, rfl⟩
    exact ⟨none, rfl⟩
  · have hvalue : Predicts (some <$> Parse.expression) (words Expression.kinds) tokens :=
      (expression tokens).bind_pure some
    refine (hvalue.bind hfinish).mono ?_
    rintro - ⟨-, ⟨e, rfl⟩, -, rfl, rfl⟩
    exact ⟨some e, rfl⟩

theorem statement (tokens : List Token) : Predicts statement (words Statement.kinds) tokens := by
  apply kind_bind
  split
  · rename_i hkind
    have hvalue : Predicts (some <$> Parse.returned) (words Statement.valueKinds) tokens.tail :=
      (returned tokens.tail).bind_pure some
    refine (pass_bind hkind (by decide) hvalue).mono ?_
    rintro - ⟨-, rfl, -, ⟨value, rfl⟩, rfl⟩
    exact ⟨.ret value, rfl⟩
  · rename_i hkind
    exact pass_pure hkind (by decide) (kinds_mem_words Statement.kinds .empty) _
  · exact unexpected ⟨_, kinds_mem_words Statement.kinds .empty⟩ tokens

theorem compoundStatement (tokens : List Token) :
    Predicts compoundStatement (words blockKinds) tokens := by
  have hnil : [] ∉ words Statement.kinds := by
    rintro ⟨s, hs⟩
    cases s <;> cases hs
  have hblock : Predicts Parse.compoundStatement
      ({[.leftBrace]} * ((words Statement.kinds)∗ * {[.rightBrace]})) tokens := by
    apply (expect (by decide) _ tokens).bind
    intro _ rest
    apply (many rfl hnil statement rest).bind
    intro entries rest
    exact (expect (by decide) _ rest).bind_pure _
  refine hblock.mono ?_
  rintro - ⟨-, rfl, -, ⟨inner, hbody, -, rfl, rfl⟩, rfl⟩
  obtain ⟨body, rfl⟩ := exists_flatMap_of_mem_kstar hbody
  exact ⟨body, rfl⟩

/-- What stands between the parentheses of a function, and what follows. -/
theorem parameters {f : ParseM Node} {L : Language Kind} (hf : ∀ rest, Predicts f L rest)
    (tokens : List Token) :
    Predicts (do
      if (← kind) = .keywordVoid then pass
      Parse.expect .rightParen "function declarator"
      f) (words Definition.parameterKinds * ({[.rightParen]} * L)) tokens := by
  have hclose : ∀ rest, Predicts (do Parse.expect .rightParen "function declarator"; f)
      ({[.rightParen]} * L) rest := fun rest => (expect (by decide) _ rest).bind fun _ => hf
  apply kind_bind
  dsimp only
  split
  · rename_i hkind
    refine (pass_bind hkind (by decide) (hclose _)).mono ?_
    rintro - ⟨-, rfl, later, hlater, rfl⟩
    exact Language.append_mem_mul (kinds_mem_words Definition.parameterKinds true) hlater
  · refine (hclose tokens).mono ?_
    intro later hlater
    exact Language.append_mem_mul (kinds_mem_words Definition.parameterKinds false) hlater

theorem functionDefinition (tokens : List Token) :
    Predicts functionDefinition (words Definition.kinds) tokens := by
  have hparts : Predicts Parse.functionDefinition (words typeKinds * (words declaratorKinds *
      ({[.leftParen]} * (words Definition.parameterKinds *
        ({[.rightParen]} * words blockKinds))))) tokens := by
    apply (typeSpecifier tokens).bind
    intro type rest
    apply (declarator rest).bind
    intro name rest
    apply (expect (by decide) _ rest).bind
    intro _ rest
    exact parameters (fun rest => (compoundStatement rest).bind_pure _) rest
  refine hparts.mono ?_
  rintro - ⟨-, ⟨⟨⟩, rfl⟩, -, ⟨-, ⟨name, rfl⟩, -, ⟨-, rfl, -, ⟨-, ⟨void, rfl⟩, -,
    ⟨-, rfl, -, ⟨body, rfl⟩, rfl⟩, rfl⟩, rfl⟩, rfl⟩, rfl⟩
  exact ⟨⟨name, void, body⟩, by simp [Definition.kinds, typeKinds, declaratorKinds]⟩

end Predicts

/-! ### Programs -/

theorem run_program_of_endOfFile {tokens : List Token} (h : (peek tokens).kind = .endOfFile) :
    run program tokens = (.error (.emptyProgram (peek tokens).span.start), tokens) := by
  have hmore : ((peek tokens).kind != .endOfFile) = false := by rw [h]; rfl
  have hitems : run (many (· != .endOfFile) functionDefinition) tokens = (.ok [], tokens) :=
    repeats_functionDefinition.run_many_eq_ok.mpr ⟨[], rfl, passes_nil.mpr rfl, hmore⟩
  rw [program, run_bind, hitems]
  rfl

end MicroC.Parse

namespace MicroC.Grammar

open Token (Kind)

/-- The sentences of the grammar have a definition at least. -/
def Sentence (kinds : List Kind) : Prop := ∃ p : Program, p ≠ [] ∧ p.kinds = kinds

/-- Some sentence starts with these kinds. -/
def Begins (kinds : List Kind) : Prop := ∃ sentence, Sentence sentence ∧ kinds <+: sentence

/-- A sequence of definitions is a sentence or can be made one. -/
theorem begins_of_prefix {p : Program} {kinds : List Kind} (h : kinds <+: p.kinds) :
    Begins kinds := by
  let last : Definition := ⟨"f", false, []⟩
  refine ⟨Program.kinds (p ++ [last]), ⟨p ++ [last], by simp, rfl⟩, ?_⟩
  rw [Program.kinds, List.flatMap_append]
  exact h.trans (List.prefix_append _ _)

end MicroC.Grammar

namespace MicroC.Parse

open Token (Kind)
open Grammar

/-- A sentence up to the end of the text is read. -/
theorem run_program_ne_error {kinds : List Kind} {tokens rest rest' : List Token} {e : ParseError}
    (hsentence : Sentence kinds) (hpasses : Passes kinds tokens rest)
    (hend : (peek rest).kind = .endOfFile) : run program tokens ≠ (.error e, rest') := by
  obtain ⟨p, hne, rfl⟩ := hsentence
  rw [run_program_eq_ok.mpr ⟨p, hne, rfl, hpasses, hend⟩]
  simp

/-- Where the reader of a program fails: within a sentence, and as it would before any tokens
that go on with the same one. -/
theorem exists_of_run_program_error {tokens rest : List Token} {e : ParseError}
    (h : run program tokens = (.error e, rest)) :
    ∃ passed, tokens = passed ++ rest ∧ Begins (passed.map (·.kind)) ∧
      (∀ rest', peek rest' = peek rest → run program (passed ++ rest') = (.error e, rest')) ∧
      if (peek tokens).kind = .endOfFile then e = .emptyProgram (peek rest).span.start
      else ∃ expected, e = .unexpected expected (peek rest) := by
  have hnil : [] ∉ words Definition.kinds := by
    rintro ⟨d, hd⟩
    cases hd
  split
  · rename_i hend
    rw [run_program_of_endOfFile hend] at h
    cases h
    refine ⟨[], rfl, begins_of_prefix (p := []) List.nil_prefix, fun rest' hpeek => ?_, rfl⟩
    rw [List.nil_append, run_program_of_endOfFile (by rw [hpeek, hend]), hpeek]
  · rename_i hend
    rcases hmany : run (many (· != .endOfFile) functionDefinition) tokens with ⟨result, middle⟩
    obtain ⟨passed, rfl, hends, hlocal⟩ :=
      (Predicts.many rfl hnil Predicts.functionDefinition tokens).run_eq hmany
    cases hends with
    | ok hword =>
        obtain ⟨p, rfl, hpasses, hstop⟩ := repeats_functionDefinition.run_many_eq_ok.mp hmany
        have hmiddle : (peek middle).kind = .endOfFile := by simpa using hstop
        cases p with
        | nil =>
            rw [passes_nil.mp hpasses] at hend
            exact absurd hmiddle hend
        | cons d p =>
            exact absurd h (run_program_ne_error ⟨d :: p, by simp, rfl⟩ hpasses hmiddle)
    | @error expected more hword =>
        have hrun : ∀ rest', peek rest' = peek middle → run program (passed ++ rest') =
            (.error (.unexpected expected (peek middle)), rest') := by
          intro rest' hpeek
          rw [program, run_bind, hlocal rest' hpeek]
        rw [hrun middle rfl] at h
        cases h
        obtain ⟨p, hp⟩ := exists_flatMap_of_mem_kstar hword
        exact ⟨passed, rfl, begins_of_prefix (p := p) ⟨more, hp.symm⟩, hrun, expected, rfl⟩

/-- No sentence goes on with a token before which the reader fails. -/
theorem not_begins_of_local {passed : List Token} {t : Token} {e : ParseError}
    (hlocal : ∀ rest, peek rest = t → run program (passed ++ rest) = (.error e, rest)) :
    ¬ Begins ((passed ++ [t]).map (·.kind)) := by
  rintro ⟨-, hsentence, more, rfl⟩
  -- The tokens that would complete the sentence may have any place in the text.
  let rest : List Token := t :: more.map fun kind => ⟨kind, .point .unknown⟩
  have hpasses : Passes ((passed ++ [t]).map (·.kind) ++ more) (passed ++ rest) [] := by
    refine ⟨passed ++ rest, (List.append_nil _).symm, ?_⟩
    simp [rest, Function.comp_def]
  exact run_program_ne_error hsentence hpasses rfl (hlocal rest rfl)

end MicroC.Parse

namespace MicroC

open Grammar

/-- If the tokens of a text do not parse, the error points at the first of them that cannot be
right: those before it, which were passed, begin some sentence, none goes on with it, and if it
is the end of the text then those before it are no sentence. It is the first of the tokens that
are left, and it is named as found unless there is nothing but the end of the text. -/
theorem parse_error_at_first_fault {front : List Token} {last : Token} {e : ParseError}
    {rest : List Token} (hfront : ∀ t ∈ front, t.kind ≠ .endOfFile)
    (hlast : last.kind = .endOfFile)
    (h : Parse.program.run (front ++ [last]) = (.error e, rest)) :
    ∃ passed t later, front ++ [last] = passed ++ t :: later ∧ rest = t :: later ∧
      Begins (passed.map (·.kind)) ∧
      ¬ Begins ((passed ++ [t]).map (·.kind)) ∧
      (t.kind = .endOfFile → ¬ Sentence (passed.map (·.kind))) ∧
      if front = [] then
        e.toDiagnostic = .grammar t.span.start "Translation unit contains no function definitions"
      else
        ∃ expected, e = .unexpected expected t ∧ e.toDiagnostic =
          .grammar t.span.start s!"Expected {expected}, found '{t.kind.text}'" := by
  obtain ⟨passed, htokens, hbegins, hlocal, hfault⟩ := Parse.exists_of_run_program_error h
  have hempty : (Parse.peek (front ++ [last])).kind = .endOfFile ↔ front = [] := by
    cases front with
    | nil => exact iff_of_true hlast rfl
    | cons t front => exact iff_of_false (hfront t List.mem_cons_self) (List.cons_ne_nil t front)
  simp only [hempty] at hfault
  cases rest with
  | nil =>
      -- The end of the text is never passed.
      obtain ⟨spared, hspared, hne⟩ := Parse.KeepsEnd.program (front ++ [last])
      have hrest : (Parse.run Parse.program (front ++ [last])).2 = [] := congrArg Prod.snd h
      rw [hrest, List.append_nil] at hspared
      exact absurd hlast (hne last (by simp [← hspared]))
  | cons t later =>
      have hfails : ∀ rest, Parse.peek rest = t →
          Parse.run Parse.program (passed ++ rest) = (.error e, rest) := hlocal
      refine ⟨passed, t, later, htokens, rfl, hbegins, Parse.not_begins_of_local hfails, ?_, ?_⟩
      · intro ht hsentence
        have hpasses : Parse.Passes (passed.map (·.kind)) (passed ++ t :: later) (t :: later) :=
          ⟨passed, rfl, rfl⟩
        exact Parse.run_program_ne_error hsentence hpasses ht (hfails (t :: later) rfl)
      · split at hfault
        · rename_i hnil
          rw [if_pos hnil, hfault]
          rfl
        · rename_i hne
          obtain ⟨expected, rfl⟩ := hfault
          rw [if_neg hne]
          exact ⟨expected, rfl, rfl⟩

/-- After the word `void` only the closing parenthesis can be right. -/
theorem parse_error_at_first_fault_after_void :
    let place : Span := .point ⟨"f.c", 1, 12⟩
    let front : List Token := [⟨.keywordInt, .point .unknown⟩, ⟨.identifier "f", .point .unknown⟩,
      ⟨.leftParen, .point .unknown⟩, ⟨.keywordVoid, .point .unknown⟩, ⟨.keywordVoid, place⟩,
      ⟨.rightParen, .point .unknown⟩]
    let last : Token := ⟨.endOfFile, .point .unknown⟩
    (∀ t ∈ front, t.kind ≠ .endOfFile) ∧ last.kind = .endOfFile ∧
      Parse.program.run (front ++ [last]) =
        (.error (.unexpected "')' in function declarator" ⟨.keywordVoid, place⟩),
          front.drop 4 ++ [last]) ∧
      Begins ((front.take 4).map (·.kind)) ∧ ¬ Begins ((front.take 5).map (·.kind)) := by
  intro place front last
  have hfront : ∀ t ∈ front, t.kind ≠ .endOfFile := by decide
  have hrun : Parse.program.run (front ++ [last]) =
      (.error (.unexpected "')' in function declarator" ⟨.keywordVoid, place⟩),
        front.drop 4 ++ [last]) := by rfl
  obtain ⟨passed, t, later, htokens, hrest, hbegins, hstops, -, -⟩ :=
    parse_error_at_first_fault hfront rfl hrun
  rw [← hrest] at htokens
  have hpassed : front.take 4 = passed := List.append_cancel_right htokens
  obtain rfl : ⟨.keywordVoid, place⟩ = t := List.head_eq_of_cons_eq hrest
  subst hpassed
  exact ⟨hfront, rfl, hrun, hbegins, hstops⟩

end MicroC
