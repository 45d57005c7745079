import Mathlib
import MicroC.Token.Layout
import MicroC.Token.Lexeme

/-!
Texts and the kinds of token that they spell, apart from any line or column.
A text spells one list of kinds: after the layout in front of it stands its
longest lexeme, and so on up to the end. The kinds that can be spelled are the
marks, the keywords, the names and the literals that are not negative.
-/

namespace MicroC

open Token (Kind)
open Unicode (isWhiteSpace)

inductive Spells : List Char → List Kind → Prop where
  | finish {text : List Char} (hend : text.drop (Layout.length text) = []) :
      Spells text [.endOfFile]
  | token {text : List Char} {lexeme : Lexeme} {kinds : List Kind}
      (hscan : Lexeme.scan (text.drop (Layout.length text)) = .ok lexeme)
      (hkind : lexeme.kind ≠ .endOfFile)
      (hrest : Spells (text.drop (Layout.length text + lexeme.length)) kinds) :
      Spells text (lexeme.kind :: kinds)

/-- A letter or an underscore, and then letters, digits and underscores. -/
def isWord : List Char → Bool
  | [] => false
  | c :: rest => Lexeme.isWordStart c && rest.all Lexeme.isWordPart

/-- A word that is no keyword. -/
def IsName (name : String) : Prop := isWord name.toList ∧ Kind.ofWord name = .identifier name

instance (name : String) : Decidable (IsName name) := inferInstanceAs (Decidable (_ ∧ _))

/-- The kinds of token that some text spells. -/
def Token.Kind.Spellable : Kind → Prop
  | .identifier name => IsName name
  | .literal value => 0 ≤ value.toInt
  | _ => True

instance : DecidablePred Token.Kind.Spellable
  | .identifier name => inferInstanceAs (Decidable (IsName name))
  | .literal value => inferInstanceAs (Decidable (0 ≤ value.toInt))
  | .keywordInt | .keywordReturn | .keywordVoid | .leftParen | .rightParen | .leftBrace
  | .rightBrace | .semicolon | .endOfFile => inferInstanceAs (Decidable True)

namespace Layout

/-- Moves the place where a comment began. -/
def Mode.shift (k : Nat) : Mode → Mode
  | .blockComment opened => .blockComment (opened + k)
  | mode => mode

theorem scan_shift (mode : Mode) (count k : Nat) (text : List Char) :
    scan (mode.shift k) (count + k) text = scan mode count text + k := by
  fun_induction scan mode count text with
  | case1 | case6 => simp [Mode.shift, scan]
  | case2 count rest ih => simpa [Mode.shift, scan, Nat.add_right_comm _ 2 k] using ih
  | case3 count rest ih => simpa [Mode.shift, scan, Nat.add_right_comm _ 2 k] using ih
  | case4 count c rest h₁ h₂ hc ih =>
      simpa [Mode.shift, scan, hc, Nat.add_right_comm _ 1 k] using ih
  | case5 count c rest h₁ h₂ hc => simp [Mode.shift, scan, hc]
  | case7 count rest ih => simpa [Mode.shift, scan, Nat.add_right_comm _ 1 k] using ih
  | case8 count c rest hc ih => simpa [Mode.shift, scan, Nat.add_right_comm _ 1 k] using ih
  | case9 => simp [Mode.shift, scan]
  | case10 opened count rest ih => simpa [Mode.shift, scan, Nat.add_right_comm _ 2 k] using ih
  | case11 opened count c rest h ih =>
      simpa [Mode.shift, scan, Nat.add_right_comm _ 1 k] using ih

theorem scan_between_add (count : Nat) (text : List Char) :
    scan .between count text = length text + count := by
  simpa [Mode.shift, length] using scan_shift .between 0 count text

theorem scan_between_cons {c : Char} (hslash : c ≠ '/') (count : Nat) (rest : List Char) :
    scan .between count (c :: rest) =
      if isWhiteSpace c then scan .between (count + 1) rest else count := by
  rw [scan.eq_4]
  · exact fun _ h => absurd h hslash
  · exact fun _ h => absurd h hslash

theorem length_cons_of_isWhiteSpace {c : Char} (hc : isWhiteSpace c) (rest : List Char) :
    length (c :: rest) = length rest + 1 := by
  have hslash : c ≠ '/' := by
    rintro rfl
    exact absurd hc (by decide)
  rw [length, scan_between_cons hslash, if_pos hc, scan_between_add]

theorem length_cons_eq_zero {c : Char} (hc : ¬isWhiteSpace c) (hslash : c ≠ '/')
    (rest : List Char) : length (c :: rest) = 0 := by
  rw [length, scan_between_cons hslash, if_neg hc]

end Layout

/-- Characters of a class are read up to one that is not of it. -/
theorem takeWhile_append_of_head? {p : Char → Bool} {front rest : List Char}
    (hfront : ∀ c ∈ front, p c) (hrest : ∀ c ∈ rest.head?, ¬p c) :
    (front ++ rest).takeWhile p = front := by
  rw [List.takeWhile_append_of_pos hfront]
  cases rest with
  | nil => simp
  | cons c rest => simp [hrest c rfl]

namespace Lexeme

theorem not_isWhiteSpace_of_isWordPart {c : Char} (h : isWordPart c) : ¬isWhiteSpace c := by
  simp only [isWordPart, Char.isAlphanum, Char.isAlpha, Char.isUpper, Char.isLower, Char.isDigit,
    Bool.or_eq_true, Bool.and_eq_true, decide_eq_true_eq, beq_iff_eq] at h
  simp only [isWhiteSpace, Unicode.whiteSpace, Unicode.Ranges.contains, List.any_cons,
    List.any_nil, Bool.or_eq_true, Bool.and_eq_true, decide_eq_true_eq]
  rcases h with h | rfl
  · simp only [UInt32.le_iff_toNat_le, ge_iff_le, Char.toNat] at h ⊢
    simp at h ⊢
    omega
  · decide

theorem not_isWordStart_of_isDigit {c : Char} (h : c.isDigit) : ¬isWordStart c := by
  simp only [isWordStart, Char.isAlpha, Char.isUpper, Char.isLower, Char.isDigit, Bool.or_eq_true,
    Bool.and_eq_true, decide_eq_true_eq, beq_iff_eq, UInt32.le_iff_toNat_le, ge_iff_le] at h ⊢
  rintro (h' | rfl)
  · simp at h h'
    omega
  · exact absurd h (by decide)

theorem scan_word {word rest : List Char} (hword : isWord word)
    (hrest : ∀ c ∈ rest.head?, ¬isWordPart c) :
    scan (word ++ rest) = .ok ⟨.ofWord (.ofList word), word.length⟩ := by
  cases word with
  | nil => simp [isWord] at hword
  | cons c word =>
      simp only [isWord, Bool.and_eq_true] at hword
      have hpart : (c :: word).all isWordPart := by
        simp [isWordPart_of_isWordStart hword.1, hword.2]
      have htake : (c :: word ++ rest).takeWhile isWordPart = c :: word :=
        takeWhile_append_of_head? (List.all_eq_true.mp hpart) hrest
      simp only [scan, List.cons_append, List.head?_cons, if_pos hword.1, ofWord]
      rw [← List.cons_append, htake]

end Lexeme

/-- The characters that are tokens by themselves. -/
inductive Marks : Char → Kind → Prop where
  | leftParen : Marks '(' .leftParen
  | rightParen : Marks ')' .rightParen
  | leftBrace : Marks '{' .leftBrace
  | rightBrace : Marks '}' .rightBrace
  | semicolon : Marks ';' .semicolon

namespace Literal

theorem isSuffix_of_isHexDigit {c : Char} (h : isHexDigit c) : isSuffix c := by
  simp only [isHexDigit, Char.isDigit, Char.le_def, Bool.or_eq_true, Bool.and_eq_true,
    decide_eq_true_eq, UInt32.le_iff_toNat_le, ge_iff_le] at h
  simp at h
  have hlt : c.toNat < 0x80 := by omega
  simp only [isSuffix, Unicode.isAlphanumeric, hlt, Char.isAlphanum, Char.isAlpha, Char.isUpper,
    Char.isLower, Char.isDigit, if_true, Bool.or_eq_true, Bool.and_eq_true, decide_eq_true_eq,
    UInt32.le_iff_toNat_le, ge_iff_le]
  simp
  omega

theorem isHexDigit_of_isDigit {c : Char} (h : c.isDigit) : isHexDigit c := by
  simp [isHexDigit, h]

theorem head?_toDigits {n : Nat} (hn : 0 < n) : (Nat.toDigits 10 n).head? ≠ some '0' := by
  induction n using Nat.strongRecOn with
  | ind n ih =>
      rw [Nat.toDigits_eq_if (by decide)]
      split
      · rename_i hlt
        simp only [List.head?_cons, ne_eq, Option.some.injEq]
        have hall : ∀ d : Fin 10, 0 < d.val → Nat.digitChar d.val ≠ '0' := by decide
        exact hall ⟨n, hlt⟩ hn
      · rename_i hge
        obtain ⟨d, ds, hd⟩ :=
          List.exists_cons_of_ne_nil (Nat.toDigits_ne_nil (n := n / 10) (b := 10))
        have hhead := ih (n / 10) (by omega) (by omega)
        rw [hd] at hhead ⊢
        exact hhead

theorem digitValue_of_isDigit {c : Char} (h : c.isDigit) : digitValue c = c.toNat - '0'.toNat := by
  simp only [Char.isDigit, Bool.and_eq_true, decide_eq_true_eq] at h
  have ha : ¬('a' ≤ c) := by
    simp only [Char.le_def, UInt32.le_iff_toNat_le, ge_iff_le] at h ⊢
    simp at h ⊢
    omega
  have hA : ¬('A' ≤ c) := by
    simp only [Char.le_def, UInt32.le_iff_toNat_le, ge_iff_le] at h ⊢
    simp at h ⊢
    omega
  simp [digitValue, ha, hA]

/-- Digits are read up to a character that may follow a literal. -/
theorem takeWhile_digits {p : Char → Bool} {digits rest : List Char}
    (hp : ∀ c, p c → isHexDigit c) (hdigits : ∀ c ∈ digits, p c)
    (hrest : ∀ c ∈ rest.head?, ¬isSuffix c) : (digits ++ rest).takeWhile p = digits := by
  apply takeWhile_append_of_head? hdigits
  intro c hc hdigit
  exact hrest c hc (isSuffix_of_isHexDigit (hp c hdigit))

theorem scan_octal {digits rest : List Char} (hdigits : ∀ c ∈ digits, c.isDigit)
    (hrest : ∀ c ∈ rest.head?, ¬isSuffix c) :
    scan ('0' :: (digits ++ rest)) = ⟨.octal, digits⟩ := by
  have hmark : ∀ later mark, digits ++ rest = mark :: later → mark.isDigit ∨ ¬isSuffix mark := by
    intro later mark h
    cases digits with
    | nil => exact .inr (hrest mark (by rw [List.nil_append] at h; rw [h]; rfl))
    | cons c digits => exact .inl (hdigits mark (by cases h; simp))
  rw [scan.eq_3, takeWhile_digits (fun _ => isHexDigit_of_isDigit) hdigits hrest]
  · exact fun later h => absurd (hmark later 'x' h) (by decide)
  · exact fun later h => absurd (hmark later 'X' h) (by decide)

theorem scan_hexadecimal {mark : Char} {digits rest : List Char} (hmark : mark = 'x' ∨ mark = 'X')
    (hdigits : ∀ c ∈ digits, isHexDigit c) (hrest : ∀ c ∈ rest.head?, ¬isSuffix c) :
    scan ('0' :: mark :: (digits ++ rest)) = ⟨.hexadecimal, digits⟩ := by
  rcases hmark with rfl | rfl <;> rw [scan, takeWhile_digits (fun _ => id) hdigits hrest]

theorem scan_decimal {digits rest : List Char} (hhead : digits.head? ≠ some '0')
    (hne : digits ≠ []) (hdigits : ∀ c ∈ digits, c.isDigit)
    (hrest : ∀ c ∈ rest.head?, ¬isSuffix c) : scan (digits ++ rest) = ⟨.decimal, digits⟩ := by
  obtain ⟨c, digits, rfl⟩ := List.exists_cons_of_ne_nil hne
  have hc : c ≠ '0' := by simpa using hhead
  rw [scan.eq_4, takeWhile_digits (fun _ => isHexDigit_of_isDigit) hdigits hrest]
  all_goals
    intro rest' h
    exact absurd (List.cons.inj h).1 hc

theorem value_decimal (n : Nat) : value ⟨.decimal, Nat.toDigits 10 n⟩ = n := by
  have hfold : ∀ (digits : List Char) (start : Nat), (∀ c ∈ digits, c.isDigit) →
      digits.foldl (fun value digit => 10 * value + digitValue digit) start =
        Nat.ofDigitChars 10 digits start := by
    intro digits
    induction digits with
    | nil => simp
    | cons c digits ih =>
        intro start hdigits
        rw [List.foldl_cons, Nat.ofDigitChars_cons, digitValue_of_isDigit (hdigits c (by simp))]
        exact ih _ fun d hd => hdigits d (by simp [hd])
  have hdigits : ∀ c ∈ Nat.toDigits 10 n, c.isDigit := fun c hc =>
    Nat.isDigit_of_mem_toDigits (by decide) (by decide) hc
  exact (hfold _ 0 hdigits).trans Nat.ofDigitChars_ten_toDigits

theorem le_maxValue_iff {n : Nat} : n ≤ Int64.maxValue.toInt ↔ n < 2 ^ 63 := by
  have hmax : Int64.maxValue.toInt = 2 ^ 63 - 1 := rfl
  omega

theorem read_eq_ok {l : Literal} {next : Option Char} {value : Int64} :
    l.read next = .ok value ↔
      l.check = .ok () ∧ (∀ c ∈ next, ¬isSuffix c) ∧ l.value < 2 ^ 63 ∧ value = .ofNat l.value := by
  unfold read
  cases hcheck : l.check with
  | error fault => simp [bind, Except.bind]
  | ok _ =>
      cases hnext : next.filter isSuffix with
      | some c =>
          obtain ⟨rfl, hc⟩ := Option.filter_eq_some_iff.mp hnext
          simp [hc, bind, Except.bind, throw, throwThe, MonadExceptOf.throw]
      | none =>
          have hsuffix : ∀ c ∈ next, ¬isSuffix c := Option.filter_eq_none_iff.mp hnext
          simp only [bind, Except.bind, le_maxValue_iff]
          split
          · rename_i hlt
            simp only [pure, Except.pure, Except.ok.injEq, true_and, hlt]
            exact ⟨fun h => ⟨hsuffix, h.symm⟩, fun h => h.2.symm⟩
          · rename_i hge
            simp only [throw, throwThe, MonadExceptOf.throw, reduceCtorEq, hge, false_and,
              and_false]

theorem toInt_nonneg_of_read {l : Literal} {next : Option Char} {value : Int64}
    (h : l.read next = .ok value) : 0 ≤ value.toInt := by
  obtain ⟨-, -, hlt, rfl⟩ := read_eq_ok.mp h
  rw [Int64.toInt_ofNat_of_lt hlt]
  exact Int.natCast_nonneg _

/-- Decimal digits make a literal of their value where nothing follows that
would spoil it. A lone zero is read as an octal literal without digits. -/
theorem read_scan_toDigits {n : Nat} {rest : List Char} (hn : n < 2 ^ 63)
    (hrest : ∀ c ∈ rest.head?, ¬isSuffix c) :
    (scan (Nat.toDigits 10 n ++ rest)).length = (Nat.toDigits 10 n).length ∧
      (scan (Nat.toDigits 10 n ++ rest)).read rest.head? = .ok (.ofNat n) := by
  have hfilter : rest.head?.filter isSuffix = none := by
    rw [Option.filter_eq_none_iff]
    exact hrest
  by_cases hzero : n = 0
  · subst hzero
    rw [Nat.toDigits_zero, List.cons_append, scan_octal (by simp) hrest]
    refine ⟨rfl, ?_⟩
    simp only [read, hfilter]
    rfl
  · rw [scan_decimal (head?_toDigits (Nat.pos_of_ne_zero hzero)) Nat.toDigits_ne_nil
      (fun c hc => Nat.isDigit_of_mem_toDigits (by decide) (by decide) hc) hrest]
    refine ⟨rfl, ?_⟩
    simp only [read, hfilter, value_decimal, if_pos (le_maxValue_iff.mpr hn)]
    rfl

end Literal

namespace Spells

theorem blank {c : Char} {rest : List Char} {kinds : List Kind} (hc : isWhiteSpace c)
    (h : Spells rest kinds) : Spells (c :: rest) kinds := by
  have hlength := Layout.length_cons_of_isWhiteSpace hc rest
  cases h with
  | finish hend => exact .finish (by rw [hlength, List.drop_succ_cons, hend])
  | token hscan hkind hrest =>
      refine .token ?_ hkind ?_
      · rw [hlength, List.drop_succ_cons, hscan]
      · rw [hlength, Nat.add_right_comm, List.drop_succ_cons]
        exact hrest

/-- A lexeme with no layout before it. -/
theorem lexeme {c : Char} {text rest : List Char} {kind : Kind} {kinds : List Kind}
    (hc : ¬isWhiteSpace c) (hslash : c ≠ '/')
    (hscan : Lexeme.scan (c :: text ++ rest) = .ok ⟨kind, (c :: text).length⟩)
    (hkind : kind ≠ .endOfFile) (h : Spells rest kinds) :
    Spells (c :: text ++ rest) (kind :: kinds) := by
  have hlength : Layout.length (c :: text ++ rest) = 0 :=
    Layout.length_cons_eq_zero hc hslash _
  have hscan' : Lexeme.scan ((c :: text ++ rest).drop (Layout.length (c :: text ++ rest))) =
      .ok ⟨kind, (c :: text).length⟩ := by
    rw [hlength, List.drop_zero, hscan]
  refine .token hscan' hkind ?_
  rw [hlength, Nat.zero_add, List.drop_left]
  exact h

theorem mark {c : Char} {rest : List Char} {kind : Kind} {kinds : List Kind} (hmark : Marks c kind)
    (h : Spells rest kinds) : Spells (c :: rest) (kind :: kinds) := by
  have hone : ∀ {c kind}, ¬isWhiteSpace c → c ≠ '/' →
      Lexeme.scan ([c] ++ rest) = .ok ⟨kind, 1⟩ → kind ≠ .endOfFile →
      Spells (c :: rest) (kind :: kinds) :=
    fun hc hslash hscan hkind => lexeme hc hslash hscan hkind h
  cases hmark <;> exact hone (by decide) (by decide) rfl (by decide)

/-- A word ends where a character follows that cannot stand in it. -/
theorem word {word : String} {c : Char} {rest : List Char} {kinds : List Kind}
    (hword : isWord word.toList) (hc : ¬Lexeme.isWordPart c) (h : Spells (c :: rest) kinds) :
    Spells (word.toList ++ c :: rest) (.ofWord word :: kinds) := by
  have hrest : ∀ c' ∈ (c :: rest).head?, ¬Lexeme.isWordPart c' := by
    rintro c' ⟨⟩
    exact hc
  have hscan := Lexeme.scan_word hword hrest
  rw [String.ofList_toList] at hscan
  have hkind : Kind.ofWord word ≠ .endOfFile := by
    unfold Kind.ofWord
    split <;> simp
  obtain ⟨c, rest', hcons⟩ : ∃ c rest', word.toList = c :: rest' := by
    cases hcons : word.toList with
    | nil => simp [hcons, isWord] at hword
    | cons c rest' => exact ⟨c, rest', rfl⟩
  rw [hcons] at hword hscan ⊢
  simp only [isWord, Bool.and_eq_true] at hword
  refine lexeme ?_ ?_ hscan hkind h
  · exact Lexeme.not_isWhiteSpace_of_isWordPart (Lexeme.isWordPart_of_isWordStart hword.1)
  · rintro rfl
    exact absurd hword.1 (by decide)

theorem word_blank {word : String} {c : Char} {rest : List Char} {kinds : List Kind}
    (hword : isWord word.toList) (hc : isWhiteSpace c) (h : Spells rest kinds) :
    Spells (word.toList ++ c :: rest) (.ofWord word :: kinds) :=
  .word hword (fun hpart => Lexeme.not_isWhiteSpace_of_isWordPart hpart hc) (.blank hc h)

theorem literal {value : Int64} {rest : List Char} {kinds : List Kind} (hvalue : 0 ≤ value.toInt)
    (hrest : ∀ c ∈ rest.head?, ¬Literal.isSuffix c) (h : Spells rest kinds) :
    Spells ((toString value.toInt).toList ++ rest) (.literal value :: kinds) := by
  obtain ⟨n, hn⟩ := Int.eq_ofNat_of_zero_le hvalue
  have hlt : n < 2 ^ 63 := by
    have := value.toInt_lt
    omega
  have hof : Int64.ofNat n = value := by
    rw [← value.ofInt_toInt, hn, Int64.ofInt_eq_ofNat]
  have htext : (toString value.toInt).toList = Nat.toDigits 10 n := by
    rw [hn]
    exact Nat.toList_repr
  obtain ⟨hlength, hread⟩ := Literal.read_scan_toDigits hlt hrest
  rw [htext]
  obtain ⟨c, digits, hdigits⟩ :=
    List.exists_cons_of_ne_nil (Nat.toDigits_ne_nil (n := n) (b := 10))
  have hc : c.isDigit :=
    Nat.isDigit_of_mem_toDigits (by decide) (by decide) (hdigits ▸ List.mem_cons_self ..)
  rw [hdigits] at hlength hread ⊢
  refine lexeme ?_ ?_ ?_ (by simp) h
  · exact Lexeme.not_isWhiteSpace_of_isWordPart (by simp [Lexeme.isWordPart, Char.isAlphanum, hc])
  · rintro rfl
    exact absurd hc (by decide)
  · simp only [Lexeme.scan, List.cons_append, List.head?_cons, if_pos hc,
      if_neg (Lexeme.not_isWordStart_of_isDigit hc), Lexeme.ofLiteral]
    rw [← List.cons_append, hlength, List.drop_left, hread, hof]

end Spells

theorem Token.Kind.spellable_ofWord {word : List Char} (h : isWord word) :
    (Kind.ofWord (.ofList word)).Spellable := by
  have hword : isWord (String.ofList word).toList := by simpa using h
  unfold Kind.ofWord
  split
  · trivial
  · trivial
  · trivial
  · rename_i hint hreturn hvoid
    refine ⟨hword, ?_⟩
    unfold Kind.ofWord
    split <;> first | rfl | simp_all

namespace Lexeme

theorem spellable_of_scan {text : List Char} {l : Lexeme} (h : scan text = .ok l) :
    l.kind.Spellable := by
  cases text with
  | nil =>
      cases h
      trivial
  | cons c rest =>
      simp only [scan, List.head?_cons] at h
      split at h
      · rename_i hc
        cases h
        have htake : (c :: rest).takeWhile isWordPart = c :: rest.takeWhile isWordPart := by
          simp [isWordPart_of_isWordStart hc]
        refine Kind.spellable_ofWord ?_
        rw [htake]
        simp [isWord, hc]
      · split at h
        · simp only [ofLiteral] at h
          split at h
          · rename_i hread
            cases h
            exact Literal.toInt_nonneg_of_read hread
          · cases h
        · unfold ofMark at h
          split at h <;> cases h <;> trivial

end Lexeme

/-- Whatever a text spells, names are names and no literal is negative. -/
theorem Spells.spellable {text : List Char} {kinds : List Kind} (h : Spells text kinds) :
    ∀ kind ∈ kinds, kind.Spellable := by
  induction h with
  | finish => simp [Kind.Spellable]
  | token hscan _ _ ih =>
      intro kind hmem
      rcases List.mem_cons.mp hmem with rfl | hmem
      · exact Lexeme.spellable_of_scan hscan
      · exact ih kind hmem

end MicroC
