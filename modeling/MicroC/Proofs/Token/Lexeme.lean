import MicroC.Proofs.Token.Layout

/-!
The language of lexemes. Marks are one character long. A word goes on as long as
its characters do, and a literal may not run into a letter or a number; so what
follows decides whether a text is a lexeme. The scanner finds the lexemes of this
language, and no others.
-/

namespace MicroC

open Token (Kind)

/-! ### Literals -/

/-- A character that is a digit of the value `v`. Capitals will do as well. -/
def Radix.Denotes (radix : Radix) (c : Char) (v : Nat) : Prop :=
  v < radix.base ∧ (c = Nat.digitChar v ∨ c = (Nat.digitChar v).toUpper)

instance (radix : Radix) (c : Char) (v : Nat) : Decidable (radix.Denotes c v) :=
  inferInstanceAs (Decidable (_ ∧ _))

/-- Digits, the most significant one first, and the number that they write. -/
def Radix.Writes (radix : Radix) (digits : List Char) (n : Nat) : Prop :=
  ∃ values, List.Forall₂ radix.Denotes digits values ∧ n = Nat.ofDigits radix.base values.reverse

/-- The literals and their values. -/
inductive Numeral : List Char → Nat → Prop
  | decimal {digits : List Char} {n : Nat} (hne : digits ≠ []) (hhead : digits.head? ≠ some '0')
      (h : Radix.decimal.Writes digits n) : Numeral digits n
  | octal {digits : List Char} {n : Nat} (h : Radix.octal.Writes digits n) :
      Numeral ('0' :: digits) n
  | hexadecimal {mark : Char} {digits : List Char} {n : Nat} (hmark : mark = 'x' ∨ mark = 'X')
      (hne : digits ≠ []) (h : Radix.hexadecimal.Writes digits n) :
      Numeral ('0' :: mark :: digits) n

/-- What a well-formed literal is made of. -/
def Radix.isDigit : Radix → Char → Bool
  | .octal, c => c.isDigit && c ≤ '7'
  | .decimal, c => c.isDigit
  | .hexadecimal, c => Literal.isHexDigit c

namespace Radix

theorem lt_of_isDigit {radix : Radix} {c : Char} (h : radix.isDigit c) : c.toNat < 128 := by
  have hhex : Literal.isHexDigit c → c.toNat < 128 := by
    simp only [Literal.isHexDigit, Char.isDigit, Char.le_def, UInt32.le_iff_toNat_le, ge_iff_le,
      Bool.or_eq_true, Bool.and_eq_true, decide_eq_true_eq, Char.toNat]
    simp
    omega
  apply hhex
  cases radix <;> simp_all [isDigit, Literal.isHexDigit]

theorem denotes_iff {radix : Radix} {c : Char} {v : Nat} :
    radix.Denotes c v ↔ radix.isDigit c ∧ v = Literal.digitValue c := by
  constructor
  · rintro ⟨hv, hc⟩
    have hall : ∀ v : Fin radix.base,
        (radix.isDigit (Nat.digitChar v) ∧ v.val = Literal.digitValue (Nat.digitChar v)) ∧
        radix.isDigit (Nat.digitChar v).toUpper ∧
          v.val = Literal.digitValue (Nat.digitChar v).toUpper := by
      cases radix <;> decide
    rcases hc with rfl | rfl
    · exact (hall ⟨v, hv⟩).1
    · exact (hall ⟨v, hv⟩).2
  · rintro ⟨hc, rfl⟩
    have hall : ∀ n : Fin 128, radix.isDigit (Char.ofNat n) →
        radix.Denotes (Char.ofNat n) (Literal.digitValue (Char.ofNat n)) := by
      cases radix <;> decide +kernel
    have := hall ⟨c.toNat, lt_of_isDigit hc⟩
    rw [Char.ofNat_toNat] at this
    exact this hc

theorem writes_iff {radix : Radix} {digits : List Char} {n : Nat} :
    radix.Writes digits n ↔
      (∀ c ∈ digits, radix.isDigit c) ∧ n = Literal.value ⟨radix, digits⟩ := by
  have hvalue : Literal.value ⟨radix, digits⟩ =
      Nat.ofDigits radix.base (digits.map Literal.digitValue).reverse := by
    rw [Nat.ofDigits_eq_foldr, List.foldr_reverse, List.foldl_map, Literal.value]
    simp only [Nat.cast_id, Nat.add_comm]
  have hdenotes : ∀ values, List.Forall₂ radix.Denotes digits values ↔
      (∀ c ∈ digits, radix.isDigit c) ∧ values = digits.map Literal.digitValue := by
    clear hvalue
    induction digits with
    | nil => simp
    | cons c digits ih =>
        intro values
        simp only [List.forall₂_cons_left_iff, denotes_iff, ih, List.forall_mem_cons, List.map_cons]
        grind
  simp only [Writes, hdenotes, hvalue]
  grind

end Radix

namespace Literal

theorem check_octal {digits : List Char} :
    check ⟨.octal, digits⟩ = .ok () ↔ ∀ c ∈ digits, c ≤ '7' := by
  simp only [check]
  cases hfind : digits.find? ('7' < ·) with
  | none => simpa using hfind
  | some c =>
      have hc : '7' < c := by simpa using List.find?_some hfind
      simp only [reduceCtorEq, false_iff, not_forall, not_le]
      exact ⟨c, List.mem_of_find?_eq_some hfind, hc⟩

/-- A literal is read to its end and has its value. -/
theorem scan_of_numeral {digits rest : List Char} {n : Nat} (h : Numeral digits n)
    (hrest : ∀ c ∈ rest.head?, ¬isSuffix c) :
    (scan (digits ++ rest)).length = digits.length ∧ (scan (digits ++ rest)).check = .ok () ∧
      (scan (digits ++ rest)).value = n := by
  cases h with
  | decimal hne hhead h =>
      obtain ⟨hdigits, rfl⟩ := Radix.writes_iff.mp h
      rw [scan_decimal hhead hne hdigits hrest]
      exact ⟨rfl, rfl, rfl⟩
  | octal h =>
      obtain ⟨hdigits, rfl⟩ := Radix.writes_iff.mp h
      simp only [Radix.isDigit, Bool.and_eq_true, decide_eq_true_eq] at hdigits
      rw [List.cons_append, scan_octal (fun c hc => (hdigits c hc).1) hrest]
      exact ⟨rfl, check_octal.mpr fun c hc => (hdigits c hc).2, rfl⟩
  | hexadecimal hmark hne h =>
      obtain ⟨hdigits, rfl⟩ := Radix.writes_iff.mp h
      rw [List.cons_append, List.cons_append, scan_hexadecimal hmark hdigits hrest]
      exact ⟨rfl, by simp [check, hne], rfl⟩

theorem exists_numeral_hexadecimal {mark : Char} (hmark : mark = 'x' ∨ mark = 'X')
    {text : List Char} (hcheck : check ⟨.hexadecimal, text.takeWhile isHexDigit⟩ = .ok ()) :
    ∃ digits later, '0' :: mark :: text = digits ++ later ∧
      digits.length = (text.takeWhile isHexDigit).length + 2 ∧
      Numeral digits (value ⟨.hexadecimal, text.takeWhile isHexDigit⟩) := by
  have hne : text.takeWhile isHexDigit ≠ [] := by
    intro hnil
    simp [check, hnil] at hcheck
  have hdigits : ∀ c ∈ text.takeWhile isHexDigit, isHexDigit c := fun c => List.mem_takeWhile_imp
  refine ⟨'0' :: mark :: text.takeWhile isHexDigit, text.dropWhile isHexDigit, ?_, rfl,
    .hexadecimal hmark hne (Radix.writes_iff.mpr ⟨hdigits, rfl⟩)⟩
  rw [List.cons_append, List.cons_append, List.takeWhile_append_dropWhile]

/-- What is scanned and passes the check is a literal. -/
theorem numeral_of_check {c : Char} {rest : List Char} (hc : c.isDigit)
    (hcheck : (scan (c :: rest)).check = .ok ()) :
    ∃ digits later, c :: rest = digits ++ later ∧ digits.length = (scan (c :: rest)).length ∧
      Numeral digits (scan (c :: rest)).value := by
  revert hcheck
  generalize htext : c :: rest = text
  fun_cases scan text with
  | case1 rest => exact exists_numeral_hexadecimal (.inl rfl)
  | case2 rest => exact exists_numeral_hexadecimal (.inr rfl)
  | case3 rest _ _ =>
      intro hcheck
      have hdigits : ∀ c ∈ rest.takeWhile Char.isDigit, Radix.octal.isDigit c := by
        intro c hc
        have hle : c ≤ '7' := check_octal.mp hcheck c hc
        simp [Radix.isDigit, List.mem_takeWhile_imp hc, hle]
      refine ⟨'0' :: rest.takeWhile Char.isDigit, rest.dropWhile Char.isDigit, ?_, rfl,
        .octal (Radix.writes_iff.mpr ⟨hdigits, rfl⟩)⟩
      rw [List.cons_append, List.takeWhile_append_dropWhile]
  | case4 _ _ _ hzero =>
      intro _
      have hhead : c ≠ '0' := by
        rintro rfl
        exact hzero rest htext.symm
      have htake : text.takeWhile Char.isDigit = c :: rest.takeWhile Char.isDigit := by
        rw [← htext, List.takeWhile_cons_of_pos hc]
      have hdigits : ∀ c ∈ text.takeWhile Char.isDigit, c.isDigit := fun c => List.mem_takeWhile_imp
      refine ⟨text.takeWhile Char.isDigit, text.dropWhile Char.isDigit,
        List.takeWhile_append_dropWhile.symm, rfl,
        .decimal ?_ ?_ (Radix.writes_iff.mpr ⟨hdigits, rfl⟩)⟩
      · rw [htake]
        exact List.cons_ne_nil c _
      · rw [htake, List.head?_cons, ne_eq, Option.some.injEq]
        exact hhead

end Literal

/-! ### Lexemes -/

/-- A keyword is a whole word; every other word is a name. -/
inductive Names : String → Kind → Prop
  | int : Names "int" .keywordInt
  | ret : Names "return" .keywordReturn
  | void : Names "void" .keywordVoid
  | name {word : String} (h : word ∉ ["int", "return", "void"]) : Names word (.identifier word)

theorem names_iff {word : String} {kind : Kind} : Names word kind ↔ kind = .ofWord word := by
  constructor
  · rintro (_ | _ | _ | h)
    · rfl
    · rfl
    · rfl
    · simp only [List.mem_cons, List.not_mem_nil, or_false, not_or] at h
      rw [Kind.ofWord]
      · exact h.1
      · exact h.2.1
      · exact h.2.2
  · rintro rfl
    unfold Kind.ofWord
    split
    · exact .int
    · exact .ret
    · exact .void
    · rename_i hint hreturn hvoid
      refine .name ?_
      simp only [List.mem_cons, List.not_mem_nil, or_false, not_or]
      exact ⟨hint, hreturn, hvoid⟩

/-- The lexemes before `rest`, and the tokens that they make. -/
inductive Lexical (rest : List Char) : List Char → Kind → Prop
  | mark {c : Char} {kind : Kind} (h : Marks c kind) : Lexical rest [c] kind
  | word {word : List Char} {kind : Kind} (h : isWord word) (hkind : Names (.ofList word) kind)
      (hrest : ∀ c ∈ rest.head?, ¬Lexeme.isWordPart c) : Lexical rest word kind
  | literal {digits : List Char} {value : Nat} (h : Numeral digits value)
      (hvalue : value < 2 ^ 63) (hrest : ∀ c ∈ rest.head?, ¬Literal.isSuffix c) :
      Lexical rest digits (.literal (.ofNat value))

theorem Numeral.exists_cons {digits : List Char} {n : Nat} (h : Numeral digits n) :
    ∃ c later, digits = c :: later ∧ c.isDigit := by
  cases h with
  | decimal hne _ h =>
      obtain ⟨c, later, rfl⟩ := List.exists_cons_of_ne_nil hne
      exact ⟨c, later, rfl, (Radix.writes_iff.mp h).1 c List.mem_cons_self⟩
  | octal => exact ⟨'0', _, rfl, by decide⟩
  | hexadecimal => exact ⟨'0', _, rfl, by decide⟩

namespace Lexical

variable {rest lexeme : List Char} {kind : Kind}

theorem scan_eq (h : Lexical rest lexeme kind) :
    Lexeme.scan (lexeme ++ rest) = .ok ⟨kind, lexeme.length⟩ := by
  cases h with
  | mark h => cases h <;> rfl
  | word h hkind hrest =>
      rw [Lexeme.scan_word h hrest, names_iff.mp hkind]
  | literal h hvalue hrest =>
      obtain ⟨hlength, hcheck, hscan⟩ := Literal.scan_of_numeral h hrest
      have hread := Literal.read_eq_ok.mpr ⟨hcheck, hrest, hscan ▸ hvalue, rfl⟩
      obtain ⟨c, later, rfl, hc⟩ := h.exists_cons
      simp only [Lexeme.scan, List.cons_append, List.head?_cons, if_pos hc,
        if_neg (Lexeme.not_isWordStart_of_isDigit hc), Lexeme.ofLiteral]
      rw [← List.cons_append, hlength, List.drop_left, hread, hscan]

theorem ne_endOfFile (h : Lexical rest lexeme kind) : kind ≠ .endOfFile := by
  cases h with
  | mark h => cases h <;> exact nofun
  | word _ hkind =>
      generalize String.ofList lexeme = word at hkind
      cases hkind <;> exact nofun
  | literal => exact nofun

theorem append_ne_nil (h : Lexical rest lexeme kind) : lexeme ++ rest ≠ [] := by
  intro hnil
  have hscan := h.scan_eq
  rw [hnil] at hscan
  obtain ⟨hkind, -⟩ : Kind.endOfFile = kind ∧ 0 = lexeme.length := by
    simpa [Lexeme.scan, Lexeme.ofMark] using hscan
  exact h.ne_endOfFile hkind.symm

/-- No layout begins like a lexeme. -/
theorem length_layout (h : Lexical rest lexeme kind) : Layout.length (lexeme ++ rest) = 0 := by
  have hpart : ∀ {c : Char} {later : List Char}, Lexeme.isWordPart c →
      Layout.length (c :: later) = 0 := by
    intro c later hc
    refine Layout.length_cons_eq_zero (Lexeme.not_isWhiteSpace_of_isWordPart hc) ?_ later
    rintro rfl
    exact absurd hc (by decide)
  cases h with
  | mark h => cases h <;> exact Layout.length_cons_eq_zero (by decide) (by decide) rest
  | word h =>
      cases lexeme with
      | nil => simp [isWord] at h
      | cons c later =>
          simp only [isWord, Bool.and_eq_true] at h
          exact hpart (Lexeme.isWordPart_of_isWordStart h.1)
  | literal h =>
      obtain ⟨c, later, rfl, hc⟩ := h.exists_cons
      exact hpart (by simp [Lexeme.isWordPart, Char.isAlphanum, hc])

end Lexical

theorem Lexeme.exists_marks {text : List Char} {l : Lexeme} (h : ofMark text = .ok l)
    (hk : l.kind ≠ .endOfFile) : ∃ c rest, text = c :: rest ∧ Marks c l.kind ∧ l.length = 1 := by
  unfold ofMark at h
  split at h <;> cases h
  · exact absurd rfl hk
  · exact ⟨_, _, rfl, .leftParen, rfl⟩
  · exact ⟨_, _, rfl, .rightParen, rfl⟩
  · exact ⟨_, _, rfl, .leftBrace, rfl⟩
  · exact ⟨_, _, rfl, .rightBrace, rfl⟩
  · exact ⟨_, _, rfl, .semicolon, rfl⟩

/-- Whatever is scanned is a lexeme. -/
theorem Lexeme.exists_lexical {text : List Char} {l : Lexeme} (h : scan text = .ok l)
    (hk : l.kind ≠ .endOfFile) :
    ∃ lexeme rest, text = lexeme ++ rest ∧ lexeme.length = l.length ∧
      Lexical rest lexeme l.kind := by
  cases text with
  | nil =>
      cases h
      exact absurd rfl hk
  | cons c text =>
      simp only [scan, List.head?_cons] at h
      split at h
      · rename_i hc
        cases h
        have htake : (c :: text).takeWhile isWordPart = c :: text.takeWhile isWordPart := by
          simp [isWordPart_of_isWordStart hc]
        refine ⟨_, (c :: text).dropWhile isWordPart, List.takeWhile_append_dropWhile.symm, rfl,
          .word ?_ (names_iff.mpr rfl) ?_⟩
        · rw [htake]
          simp [isWord, hc]
        · intro d hd
          have hnot := List.head?_dropWhile_not isWordPart (c :: text)
          rw [Option.mem_def.mp hd] at hnot
          simpa using hnot
      · split at h
        · rename_i hc
          simp only [ofLiteral] at h
          split at h
          · rename_i value hread
            cases h
            obtain ⟨hcheck, hsuffix, hlt, rfl⟩ := Literal.read_eq_ok.mp hread
            obtain ⟨digits, later, htext, hlength, hnumeral⟩ := Literal.numeral_of_check hc hcheck
            refine ⟨digits, later, htext, hlength, .literal hnumeral hlt ?_⟩
            rw [← hlength, htext, List.drop_left] at hsuffix
            exact hsuffix
          · cases h
        · obtain ⟨d, rest, htext, hmark, hlength⟩ := exists_marks h hk
          exact ⟨[d], rest, htext, hlength.symm, .mark hmark⟩

end MicroC
