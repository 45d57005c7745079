import MicroC.Proofs.Token.Places

/-!
Calls that go on after an error. Each call passes some of the text, unless it gives the end
of the text or a character that begins nothing. A call that gives one of these leaves the cursor
where any other call gives it again, so that from there on nothing changes. Since a text
has only so many characters, this is so after as many calls.
-/

namespace MicroC

/-- The answers after which nothing changes: the end of the text, and a character that begins
neither layout nor a lexeme. -/
inductive Settles : Except (Halt LexicalError) Token → Prop
  | finish (span : Span) : Settles (.ok ⟨.endOfFile, span⟩)
  | unexpected (location : Location) (c : Char) :
      Settles (.error (.failure ⟨location, .unexpectedCharacter c⟩))

/-- The answers after which no more tokens are asked for. -/
inductive Concludes : Except (Halt LexicalError) Token → Prop
  | finish (span : Span) : Concludes (.ok ⟨.endOfFile, span⟩)
  | error (stop : Halt LexicalError) : Concludes (.error stop)

theorem Settles.concludes {answer : Except (Halt LexicalError) Token} (h : Settles answer) :
    Concludes answer := by
  cases h with
  | finish span => exact .finish span
  | unexpected location c => exact .error _

/-! ### One call -/

theorem Lexical.ne_nil {rest lexeme : List Char} {kind : Token.Kind}
    (h : Lexical rest lexeme kind) : lexeme ≠ [] :=
  List.length_pos_iff.mp (Lexeme.length_pos_of_scan h.scan_eq h.ne_endOfFile)

theorem Literal.Longest.ne_nil {rest spelled : List Char} {l : Literal}
    (h : Longest rest spelled l) : spelled ≠ [] := by
  cases h with
  | hexadecimal | octal => exact List.cons_ne_nil _ _
  | decimal hne => exact hne

/-- Every way to fail passes some text, except that a stray character is not passed. -/
theorem Call.passes {file : String} {before text passed : List Char}
    {answer : Except (Halt LexicalError) Token} (h : Call file before text passed answer) :
    passed ≠ [] ∨ Settles answer := by
  cases h with
  | token _ hlexeme => exact .inl (List.append_ne_nil_of_right_ne_nil _ hlexeme.ne_nil)
  | finish => exact .inr (.finish _)
  | comment => exact .inl (List.append_ne_nil_of_right_ne_nil _ (List.cons_ne_nil _ _))
  | literal _ hlongest => exact .inl (List.append_ne_nil_of_right_ne_nil _ hlongest.ne_nil)
  | suffix _ hlongest => exact .inl (List.append_ne_nil_of_right_ne_nil _ hlongest.ne_nil)
  | unexpected => exact .inr (.unexpected _ _)

namespace Stray

variable {c : Char} {rest : List Char}

theorem length_layout (h : Stray c rest) : Layout.length (c :: rest) = 0 := by
  by_cases hslash : c = '/'
  · subst hslash
    exact Layout.length_slash (h.comment rfl)
  · exact Layout.length_cons_eq_zero h.blank hslash rest

theorem ofMark_eq (h : Stray c rest) :
    Lexeme.ofMark (c :: rest) = .error ⟨.unexpectedCharacter c, 0, 0⟩ := by
  rw [Lexeme.ofMark.eq_8]
  · rintro rfl
    exact h.mark _ .leftParen
  · rintro rfl
    exact h.mark _ .rightParen
  · rintro rfl
    exact h.mark _ .leftBrace
  · rintro rfl
    exact h.mark _ .rightBrace
  · rintro rfl
    exact h.mark _ .semicolon
  · rintro later hc rfl
    exact (h.comment hc '*' rfl).2 rfl

theorem scan_eq (h : Stray c rest) :
    Lexeme.scan (c :: rest) = .error ⟨.unexpectedCharacter c, 0, 0⟩ := by
  simp only [Lexeme.scan, List.head?_cons, if_neg h.word, if_neg h.digit, h.ofMark_eq]

end Stray

namespace Cursor

variable {file source : String} {before : List Char} {c : Cursor}

/-- At a stray character a call gives it and stays there. -/
theorem next_of_stray {char : Char} {rest : List Char} (h : Stray char rest)
    (hrest : c.rest = char :: rest) :
    c.next file = (.error (.failure ⟨c.location file, .unexpectedCharacter char⟩), c) := by
  simp only [next, hrest, h.length_layout, skip, h.scan_eq, Nat.sub_self]

theorem next_of_end (hrest : c.rest = []) :
    c.next file = (.ok ⟨.endOfFile, .point (c.location file)⟩, c) := by
  have hlayout : Layout.length ([] : List Char) = 0 := rfl
  have hscan : Lexeme.scan [] = .ok ⟨.endOfFile, 0⟩ := rfl
  simp only [next, hrest, hlayout, skip, hscan, Span.point]

/-- What is given once and changes nothing more is given again by the next call. -/
theorem Moves.next_eq {passed : List Char} {outcome : Except (Halt LexicalError) Token × Cursor}
    (h : Moves file before c passed outcome) (hsettles : Settles outcome.1) :
    outcome.2.next file = outcome := by
  obtain ⟨answer, c'⟩ := outcome
  obtain ⟨htext, hstands, hcall⟩ := h
  dsimp only at *
  generalize c.rest = text at htext hcall
  cases hcall with
  | finish =>
      have hrest : c'.rest = [] := by simpa using htext
      rw [next_of_end hrest, hstands.location]
  | unexpected hlayout hc =>
      have hrest := List.append_cancel_left htext
      rw [next_of_stray hc hrest.symm, hstands.location]
  | token _ hlexeme =>
      cases hsettles
      exact absurd rfl hlexeme.ne_endOfFile
  | comment | literal | suffix => cases hsettles

/-! ### Any number of calls -/

theorem exists_moves_after (hsource : source.length < 2 ^ 32 - 1) (file : String) (k : Nat) :
    ∃ passed, Moves file ((after file source k).behind source) (after file source k) passed
      ((after file source k).next file) := by
  have hkeeps := keeps_after hsource file k
  refine exists_moves hkeeps.stands ?_ file
  rw [← List.length_append, ← hkeeps.text, String.length_toList, UInt32.size]
  omega

theorem length_rest_after_lt (hsource : source.length < 2 ^ 32 - 1) (file : String) (k : Nat) :
    (after file source (k + 1)).rest.length < (after file source k).rest.length ∨
      Settles (answer file source k) := by
  obtain ⟨passed, hmoves⟩ := exists_moves_after hsource file k
  refine hmoves.call.passes.imp_left fun hne => ?_
  have hpos := List.length_pos_iff.mpr hne
  rw [hmoves.text, List.length_append, after]
  omega

/-- Once an answer has settled, every later call is the same as the one that gave it. -/
theorem next_after_of_settles {j k : Nat} (hsource : source.length < 2 ^ 32 - 1)
    (hsettles : Settles (answer file source j)) (hjk : j ≤ k) :
    (after file source k).next file = (after file source j).next file := by
  induction k, hjk using Nat.le_induction with
  | base => rfl
  | succ k _ ih =>
      obtain ⟨passed, hmoves⟩ := exists_moves_after hsource file j
      rw [after, ih]
      exact hmoves.next_eq hsettles

/-- As long as no answer has settled, each call has passed a character at least. -/
theorem length_rest_after_le (hsource : source.length < 2 ^ 32 - 1) (file : String) {k : Nat}
    (h : ∀ j < k, ¬Settles (answer file source j)) :
    (after file source k).rest.length + k ≤ source.length := by
  induction k with
  | zero => exact Nat.le_of_eq String.length_toList
  | succ k ih =>
      have hbefore := ih fun j hj => h j (Nat.lt_succ_of_lt hj)
      have hlt := (length_rest_after_lt hsource file k).resolve_right (h k (Nat.lt_succ_self k))
      omega

/-- There are no more calls before the answers settle than there are characters. -/
theorem exists_settles (hsource : source.length < 2 ^ 32 - 1) (file : String) :
    ∃ j ≤ source.length, Settles (answer file source j) := by
  by_contra hnone
  push Not at hnone
  have hle := length_rest_after_le hsource file fun j hj => hnone j (Nat.le_of_lt hj)
  have hrest : (after file source source.length).rest = [] :=
    List.eq_nil_of_length_eq_zero (by omega)
  apply hnone source.length (Nat.le_refl _)
  rw [answer, next_of_end hrest]
  exact .finish _

/-! ### All tokens -/

/-- The tokens from a cursor on are the answers of the calls up to the first that concludes. -/
theorem exists_tokens_eq (file source : String) (i : Nat) :
    ∃ m, Concludes (answer file source (i + m)) ∧
      (∀ j < m, ¬Concludes (answer file source (i + j))) ∧
      (after file source i).tokens file = (List.range' i (m + 1)).mapM (answer file source) := by
  generalize hc : after file source i = c
  fun_induction Cursor.tokens file c generalizing i with
  | case1 c stop c' hnext =>
      have hanswer : answer file source i = .error stop := by rw [answer, hc, hnext]
      exact ⟨0, hanswer ▸ .error stop, by simp, by simp [hanswer]⟩
  | case2 c token c' hnext hk =>
      have hanswer : answer file source i = .ok token := by rw [answer, hc, hnext]
      obtain ⟨kind, span⟩ := token
      obtain rfl : kind = .endOfFile := hk
      exact ⟨0, hanswer ▸ .finish span, by simp, by simp [hanswer]⟩
  | case3 c token c' hnext hk _ ih =>
      have hanswer : answer file source i = .ok token := by rw [answer, hc, hnext]
      obtain ⟨m, hconcludes, hbefore, htokens⟩ := ih (i + 1) (by rw [after, hc, hnext])
      have hshift : ∀ j, i + 1 + j = i + (j + 1) := fun j => by omega
      simp only [hshift] at hconcludes hbefore
      refine ⟨m + 1, hconcludes, ?_, ?_⟩
      · rintro (- | j) hj
        · rw [Nat.add_zero, hanswer]
          rintro ⟨⟩
          exact hk rfl
        · exact hbefore j (Nat.lt_of_succ_lt_succ hj)
      · rw [List.range'_succ, List.mapM_cons, hanswer, htokens]
        rfl

/-- Each call passes some text, unless it gives the end of the text or a stray character, and all
calls after such a one give the same and leave the cursor where it is. So the tokens of a text are
read by no more calls than it has characters and one, and all calls from that one on give the
same. -/
theorem calls_settle (file : String) {source : String} (h : source.length < 2 ^ 32 - 1) :
    (∀ k, (after file source (k + 1)).rest.length < (after file source k).rest.length ∨
      Settles (answer file source k)) ∧
    (∀ j k, Settles (answer file source j) → j ≤ k →
      answer file source k = answer file source j ∧
        after file source (k + 1) = after file source (j + 1)) ∧
    (∃ k ≤ source.length, Concludes (answer file source k) ∧
      (∀ j < k, ¬Concludes (answer file source j)) ∧
      tokenize file source = (List.range (k + 1)).mapM (answer file source)) ∧
    ∀ k, source.length ≤ k → answer file source k = answer file source source.length := by
  have hlater : ∀ j k, Settles (answer file source j) → j ≤ k →
      answer file source k = answer file source j ∧
        after file source (k + 1) = after file source (j + 1) := by
    intro j k hsettles hjk
    have hnext := next_after_of_settles h hsettles hjk
    exact ⟨congrArg Prod.fst hnext, congrArg Prod.snd hnext⟩
  obtain ⟨j, hj, hsettles⟩ := exists_settles h file
  refine ⟨length_rest_after_lt h file, hlater, ?_, fun k hk => ?_⟩
  · obtain ⟨m, hconcludes, hbefore, htokens⟩ := exists_tokens_eq file source 0
    simp only [Nat.zero_add] at hconcludes hbefore
    refine ⟨m, ?_, hconcludes, hbefore, ?_⟩
    · by_contra hlt
      exact hbefore j (by omega) hsettles.concludes
    · rw [List.range_eq_range']
      exact htokens
  · rw [(hlater j k hsettles (hj.trans hk)).1, (hlater j _ hsettles hj).1]

/-- A literal without digits and one with a suffix are passed, the suffix itself is not. -/
theorem calls_settle_suffix :
    "0x 9é".length < 2 ^ 32 - 1 ∧
      answer "a.c" "0x 9é" 0 = .error (.failure ⟨⟨"a.c", 1, 1⟩, .literal .noDigits⟩) ∧
      answer "a.c" "0x 9é" 1 = .error (.failure ⟨⟨"a.c", 1, 5⟩, .literal (.suffix 'é')⟩) ∧
      ∀ k ≥ 5, answer "a.c" "0x 9é" k =
        .error (.failure ⟨⟨"a.c", 1, 5⟩, .unexpectedCharacter 'é'⟩) := by
  have hlength : "0x 9é".length < 2 ^ 32 - 1 := by decide
  refine ⟨hlength, by decide +kernel, by decide +kernel, fun k hk => ?_⟩
  exact ((calls_settle "a.c" hlength).2.2.2 k hk).trans (by decide +kernel)

end Cursor

end MicroC
