import MicroC.Proofs.Token.Lexeme

/-!
What becomes of a literal. Where it ends is settled before anything else: a hexadecimal
literal goes on as long as there are hexadecimal digits, and every other one as long as
there are decimal digits, whether or not they belong to its radix. Of all that may be
wrong with it the first fault is told, and if nothing is, the literal has its value.
-/

namespace MicroC

namespace Radix

/-- A digit of some value. -/
def Digit (radix : Radix) (c : Char) : Prop := ∃ v, radix.Denotes c v

theorem digit_iff {radix : Radix} {c : Char} : radix.Digit c ↔ radix.isDigit c := by
  simp [Digit, denotes_iff]

theorem digit_decimal {c : Char} : decimal.Digit c ↔ c.isDigit := digit_iff

theorem digit_hexadecimal {c : Char} : hexadecimal.Digit c ↔ Literal.isHexDigit c := digit_iff

theorem digit_octal {c : Char} : octal.Digit c ↔ c.isDigit ∧ c ≤ '7' := by
  rw [digit_iff]
  simp [isDigit]

/-- Digits write a number, and nothing else does. -/
theorem exists_writes_iff {radix : Radix} {digits : List Char} :
    (∃ n, radix.Writes digits n) ↔ ∀ c ∈ digits, radix.Digit c := by
  simp [writes_iff, digit_iff]

theorem one_lt_base (radix : Radix) : 1 < radix.base := by
  cases radix <;> decide

/-! ### The digits of a number -/

variable {radix : Radix} {digits : List Char} {n : Nat}

theorem Writes.concat {c : Char} {v : Nat} (h : radix.Writes digits n) (hc : radix.Denotes c v) :
    radix.Writes (digits ++ [c]) (radix.base * n + v) := by
  obtain ⟨values, hvalues, rfl⟩ := h
  refine ⟨values ++ [v], List.rel_append hvalues (.cons hc .nil), ?_⟩
  rw [List.reverse_append, List.reverse_singleton, List.singleton_append, Nat.ofDigits_cons,
    Nat.add_comm]

theorem Writes.leadingZeros (h : radix.Writes digits n) (zeros : Nat) :
    radix.Writes (List.replicate zeros '0' ++ digits) n := by
  obtain ⟨values, hvalues, rfl⟩ := h
  have hzero : radix.Denotes '0' 0 := ⟨Nat.zero_lt_of_lt radix.one_lt_base, .inl rfl⟩
  have hzeros : List.Forall₂ radix.Denotes (List.replicate zeros '0') (List.replicate zeros 0) := by
    induction zeros with
    | zero => exact .nil
    | succ zeros ih => exact .cons hzero ih
  refine ⟨List.replicate zeros 0 ++ values, List.rel_append hzeros hvalues, ?_⟩
  rw [List.reverse_append, List.reverse_replicate, Nat.ofDigits_append_replicate_zero]

theorem denotes_digitChar {v : Nat} (h : v < radix.base) : radix.Denotes (Nat.digitChar v) v :=
  ⟨h, .inl rfl⟩

theorem Denotes.toUpper {c : Char} {v : Nat} (h : radix.Denotes c v) :
    radix.Denotes c.toUpper v := by
  obtain ⟨hv, rfl | rfl⟩ := h
  · exact ⟨hv, .inr rfl⟩
  · have hall : ∀ v : Fin radix.base,
        (Nat.digitChar v).toUpper.toUpper = (Nat.digitChar v).toUpper := by
      cases radix <;> decide
    exact ⟨hv, .inr (hall ⟨v, hv⟩)⟩

theorem writes_toDigits (radix : Radix) (n : Nat) :
    radix.Writes (Nat.toDigits radix.base n) n := by
  have hbase := radix.one_lt_base
  induction n using Nat.strongRecOn with
  | ind n ih =>
      rw [Nat.toDigits_eq_if hbase]
      split
      · rename_i hlt
        refine ⟨[n], .cons (denotes_digitChar hlt) .nil, ?_⟩
        simp
      · rename_i hge
        have hdiv : n / radix.base < n := Nat.div_lt_self (by omega) hbase
        have hmod : n % radix.base < radix.base := Nat.mod_lt n (by omega)
        have hlast := (ih (n / radix.base) hdiv).concat (denotes_digitChar hmod)
        rwa [Nat.div_add_mod] at hlast

end Radix

namespace Literal

/-! ### The longest literal -/

/-- The longest literal before `rest`, with its spelling. -/
inductive Longest (rest : List Char) : List Char → Literal → Prop
  | hexadecimal {mark : Char} {digits : List Char} (hmark : mark = 'x' ∨ mark = 'X')
      (hdigits : ∀ c ∈ digits, Radix.hexadecimal.Digit c)
      (hrest : ∀ c ∈ rest.head?, ¬Radix.hexadecimal.Digit c) :
      Longest rest ('0' :: mark :: digits) ⟨.hexadecimal, digits⟩
  | octal {digits : List Char} (hdigits : ∀ c ∈ digits, Radix.decimal.Digit c)
      (hrest : ∀ c ∈ rest.head?, ¬Radix.decimal.Digit c)
      (hmark : digits = [] → ∀ c ∈ rest.head?, c ≠ 'x' ∧ c ≠ 'X') :
      Longest rest ('0' :: digits) ⟨.octal, digits⟩
  | decimal {digits : List Char} (hne : digits ≠ []) (hhead : digits.head? ≠ some '0')
      (hdigits : ∀ c ∈ digits, Radix.decimal.Digit c)
      (hrest : ∀ c ∈ rest.head?, ¬Radix.decimal.Digit c) :
      Longest rest digits ⟨.decimal, digits⟩

variable {rest spelled : List Char} {l : Literal}

theorem Longest.length_eq (h : Longest rest spelled l) : l.length = spelled.length := by
  cases h <;> rfl

theorem Longest.scan_eq (h : Longest rest spelled l) : scan (spelled ++ rest) = l := by
  cases h with
  | hexadecimal hmark hdigits hrest =>
      simp only [Radix.digit_hexadecimal] at hdigits hrest
      rcases hmark with rfl | rfl
      · rw [List.cons_append, List.cons_append, scan, takeWhile_append_of_head? hdigits hrest]
      · rw [List.cons_append, List.cons_append, scan, takeWhile_append_of_head? hdigits hrest]
  | @octal digits hdigits hrest hmark =>
      simp only [Radix.digit_decimal] at hdigits hrest
      have hnext : ∀ mark later, digits ++ rest = mark :: later → mark ≠ 'x' ∧ mark ≠ 'X' := by
        intro mark later htext
        cases digits with
        | nil => exact hmark rfl mark (by rw [List.nil_append] at htext; rw [htext]; rfl)
        | cons d digits =>
            obtain rfl : d = mark := (List.cons.inj htext).1
            have hd := hdigits d List.mem_cons_self
            constructor <;> rintro rfl <;> exact absurd hd (by decide)
      rw [List.cons_append, scan.eq_3, takeWhile_append_of_head? hdigits hrest]
      · exact fun later htext => (hnext 'x' later htext).1 rfl
      · exact fun later htext => (hnext 'X' later htext).2 rfl
  | decimal hne hhead hdigits hrest =>
      simp only [Radix.digit_decimal] at hdigits hrest
      obtain ⟨c, digits, rfl⟩ := List.exists_cons_of_ne_nil hne
      have hc : c ≠ '0' := by simpa using hhead
      rw [scan.eq_4, takeWhile_append_of_head? hdigits hrest]
      all_goals
        intro later htext
        exact absurd (List.cons.inj htext).1 hc

theorem not_of_mem_head?_dropWhile {p : Char → Bool} {text : List Char} {c : Char}
    (h : c ∈ (text.dropWhile p).head?) : ¬p c := by
  have hnot := List.head?_dropWhile_not p text
  rw [Option.mem_def.mp h] at hnot
  simpa using hnot

/-- At a digit stands a literal, well formed or not. -/
theorem exists_longest {c : Char} (hc : c.isDigit) (text : List Char) :
    ∃ spelled rest, c :: text = spelled ++ rest ∧ Longest rest spelled (scan (c :: text)) := by
  have htake : ∀ {p : Char → Bool} {text : List Char}, ∀ c ∈ text.takeWhile p, p c :=
    fun c hc => List.mem_takeWhile_imp hc
  generalize htext : c :: text = whole
  fun_cases scan whole with
  | case1 later =>
      refine ⟨'0' :: 'x' :: later.takeWhile isHexDigit, later.dropWhile isHexDigit, by simp,
        .hexadecimal (.inl rfl) ?_ ?_⟩
      all_goals simp only [Radix.digit_hexadecimal]
      · exact htake
      · exact fun d => not_of_mem_head?_dropWhile
  | case2 later =>
      refine ⟨'0' :: 'X' :: later.takeWhile isHexDigit, later.dropWhile isHexDigit, by simp,
        .hexadecimal (.inr rfl) ?_ ?_⟩
      all_goals simp only [Radix.digit_hexadecimal]
      · exact htake
      · exact fun d => not_of_mem_head?_dropWhile
  | case3 later hx hX =>
      refine ⟨'0' :: later.takeWhile Char.isDigit, later.dropWhile Char.isDigit, by simp,
        .octal ?_ ?_ ?_⟩
      · simp only [Radix.digit_decimal]
        exact htake
      · simp only [Radix.digit_decimal]
        exact fun d => not_of_mem_head?_dropWhile
      · intro hnil d hd
        have hsame : later.dropWhile Char.isDigit = later := by
          simpa [hnil] using List.takeWhile_append_dropWhile (p := Char.isDigit) (l := later)
        rw [hsame] at hd
        obtain ⟨rest, rfl⟩ := List.head?_eq_some_iff.mp hd
        exact ⟨fun h => hx rest (by rw [h]), fun h => hX rest (by rw [h])⟩
  | case4 _ _ _ hzero =>
      subst htext
      refine ⟨(c :: text).takeWhile Char.isDigit, (c :: text).dropWhile Char.isDigit,
        List.takeWhile_append_dropWhile.symm, .decimal ?_ ?_ ?_ ?_⟩
      · simp [hc]
      · rw [List.takeWhile_cons_of_pos hc, List.head?_cons, ne_eq, Option.some.injEq]
        rintro rfl
        exact hzero text rfl
      · simp only [Radix.digit_decimal]
        exact htake
      · simp only [Radix.digit_decimal]
        exact fun d => not_of_mem_head?_dropWhile

/-! ### The verdict -/

/-- A literal with a digit where it needs one, and no digit beyond its radix. -/
structure WellFormed (l : Literal) : Prop where
  nonempty : l.radix = .hexadecimal → l.digits ≠ []
  digits : ∀ c ∈ l.digits, l.radix.Digit c

/-- What is said of a literal that `next` follows. A fault is told only if none of
those before it applies. -/
inductive Judged : Literal → Option Char → Except Fault Int64 → Prop
  | noDigits {next : Option Char} : Judged ⟨.hexadecimal, []⟩ next (.error .noDigits)
  | octalDigit {front back : List Char} {digit : Char} {next : Option Char}
      (hfront : ∀ c ∈ front, Radix.octal.Digit c) (hdigit : digit = '8' ∨ digit = '9') :
      Judged ⟨.octal, front ++ digit :: back⟩ next (.error (.octalDigit digit))
  | suffix {l : Literal} {c : Char} (h : l.WellFormed) (hc : isSuffix c) :
      Judged l (some c) (.error (.suffix c))
  | range {l : Literal} {next : Option Char} {n : Nat} (h : l.WellFormed)
      (hnext : ∀ c ∈ next, ¬isSuffix c) (hn : l.radix.Writes l.digits n) (hlarge : 2 ^ 63 ≤ n) :
      Judged l next (.error (.range (.ofList l.digits)))
  | value {l : Literal} {next : Option Char} {n : Nat} (h : l.WellFormed)
      (hnext : ∀ c ∈ next, ¬isSuffix c) (hn : l.radix.Writes l.digits n) (hsmall : n < 2 ^ 63) :
      Judged l next (.ok (.ofNat n))

/-- How far from the beginning of a literal of `length` characters its fault is. A suffix is
at fault where it stands, and anything else where the literal begins. -/
def Fault.offset (length : Nat) : Fault → Nat
  | .suffix _ => length
  | _ => 0

variable {next : Option Char} {verdict : Except Fault Int64}

theorem WellFormed.check (h : l.WellFormed) : l.check = .ok () := by
  obtain ⟨radix, digits⟩ := l
  cases radix with
  | octal => exact check_octal.mpr fun c hc => (Radix.digit_octal.mp (h.digits c hc)).2
  | decimal => rfl
  | hexadecimal => simp [Literal.check, h.nonempty rfl]

theorem read_of_check (h : l.check = .ok ()) (next : Option Char) :
    l.read next =
      match next.filter isSuffix with
      | some c => .error (.suffix c)
      | none =>
          if l.value < 2 ^ 63 then .ok (.ofNat l.value)
          else .error (.range (.ofList l.digits)) := by
  simp only [read, h, ← le_maxValue_iff]
  cases next.filter isSuffix <;> rfl

theorem Judged.read_eq (h : Judged l next verdict) : l.read next = verdict := by
  cases h with
  | noDigits => rfl
  | @octalDigit front back digit _ hfront hdigit =>
      have hnone : front.find? ('7' < ·) = none := by
        simpa using fun c hc => (Radix.digit_octal.mp (hfront c hc)).2
      have hfind : (front ++ digit :: back).find? ('7' < ·) = some digit := by
        rw [List.find?_append, hnone]
        rcases hdigit with rfl | rfl <;> rfl
      simp only [read, check, hfind]
      rfl
  | suffix h hc => simp [read_of_check h.check, Option.filter, hc]
  | range h hnext hn hlarge =>
      obtain ⟨-, rfl⟩ := Radix.writes_iff.mp hn
      rw [read_of_check h.check, Option.filter_eq_none_iff.mpr hnext]
      exact if_neg (Nat.not_lt.mpr hlarge)
  | value h hnext hn hsmall =>
      obtain ⟨-, rfl⟩ := Radix.writes_iff.mp hn
      rw [read_of_check h.check, Option.filter_eq_none_iff.mpr hnext]
      exact if_pos hsmall

/-- A suffix is at fault only if the literal itself is not. -/
theorem Judged.suffix_inv {c : Char} (h : Judged l next (.error (.suffix c))) :
    next = some c ∧ l.WellFormed ∧ isSuffix c := by
  cases h with
  | suffix h hc => exact ⟨rfl, h, hc⟩

theorem WellFormed.exists_judged (h : l.WellFormed) (next : Option Char) :
    ∃ verdict, Judged l next verdict := by
  cases hnext : next.filter isSuffix with
  | some c =>
      obtain ⟨rfl, hc⟩ := Option.filter_eq_some_iff.mp hnext
      exact ⟨_, .suffix h hc⟩
  | none =>
      have hnone : ∀ c ∈ next, ¬isSuffix c := Option.filter_eq_none_iff.mp hnext
      obtain ⟨n, hn⟩ := Radix.exists_writes_iff.mpr h.digits
      rcases Nat.lt_or_ge n (2 ^ 63) with hsmall | hlarge
      · exact ⟨_, .value h hnone hn hsmall⟩
      · exact ⟨_, .range h hnone hn hlarge⟩

theorem eq_eight_or_nine {c : Char} (hc : c.isDigit) (h : '7' < c) : c = '8' ∨ c = '9' := by
  simp only [Char.isDigit, Bool.and_eq_true, decide_eq_true_eq, UInt32.le_iff_toNat_le,
    ge_iff_le] at hc
  simp only [Char.lt_def, UInt32.lt_iff_toNat_lt] at h
  simp at hc h
  rcases Nat.lt_or_ge c.toNat 57 with hlt | hge
  · exact .inl (Char.toNat_inj.mp (show c.toNat = 56 by omega))
  · exact .inr (Char.toNat_inj.mp (show c.toNat = 57 by omega))

/-- Every literal that may stand in a text is judged. -/
theorem Longest.exists_judged (h : Longest rest spelled l) (next : Option Char) :
    ∃ verdict, Judged l next verdict := by
  cases h with
  | @hexadecimal _ digits _ hdigits =>
      cases digits with
      | nil => exact ⟨_, .noDigits⟩
      | cons c digits =>
          exact WellFormed.exists_judged ⟨fun _ => List.cons_ne_nil c _, hdigits⟩ next
  | @octal digits hdigits =>
      cases hfind : digits.find? ('7' < ·) with
      | none =>
          have hle : ∀ c ∈ digits, c ≤ '7' := by simpa using hfind
          refine WellFormed.exists_judged ⟨fun h => (by cases h), fun c hc => ?_⟩ next
          exact Radix.digit_octal.mpr ⟨Radix.digit_decimal.mp (hdigits c hc), hle c hc⟩
      | some digit =>
          obtain ⟨hdigit, front, back, rfl, hfront⟩ := List.find?_eq_some_iff_append.mp hfind
          have hlt : '7' < digit := by simpa using hdigit
          have hclass : ∀ c ∈ front ++ digit :: back, c.isDigit :=
            fun c hc => Radix.digit_decimal.mp (hdigits c hc)
          refine ⟨_, .octalDigit (fun c hc => Radix.digit_octal.mpr ⟨?_, ?_⟩) ?_⟩
          · exact hclass c (List.mem_append_left _ hc)
          · simpa using hfront c hc
          · exact eq_eight_or_nine (hclass digit (by simp)) hlt
  | decimal _ _ hdigits => exact WellFormed.exists_judged ⟨fun h => (by cases h), hdigits⟩ next

/-! ### Spellings -/

/-- The ways to write a number as a literal. -/
inductive Spelling (n : Nat) : List Char → Prop
  | decimal : Spelling n (Nat.toDigits 10 n)
  | octal (zeros : Nat) : Spelling n ('0' :: (List.replicate zeros '0' ++ Nat.toDigits 8 n))
  | hexadecimal {mark : Char} {digits : List Char} (hmark : mark = 'x' ∨ mark = 'X') (zeros : Nat)
      (hdigits : List.Forall₂ (fun c d => c = d ∨ c = d.toUpper) digits (Nat.toDigits 16 n)) :
      Spelling n ('0' :: mark :: (List.replicate zeros '0' ++ digits))

/-- Capital digits write the same number. -/
theorem writes_of_forall₂ {radix : Radix} {digits digits' : List Char} {n : Nat}
    (hdigits : List.Forall₂ (fun c d => c = d ∨ c = d.toUpper) digits digits')
    (h : radix.Writes digits' n) : radix.Writes digits n := by
  obtain ⟨values, hvalues, rfl⟩ := h
  refine ⟨values, ?_, rfl⟩
  induction hdigits generalizing values with
  | nil =>
      cases hvalues
      exact .nil
  | cons hcase _ ih =>
      cases hvalues with
      | cons hd hvalues =>
          refine .cons ?_ (ih _ hvalues)
          rcases hcase with rfl | rfl
          · exact hd
          · exact hd.toUpper

theorem Spelling.numeral {n : Nat} (h : Spelling n spelled) : Numeral spelled n := by
  cases h with
  | decimal =>
      rcases Nat.eq_zero_or_pos n with rfl | hpos
      · exact .octal ⟨[], .nil, rfl⟩
      · exact .decimal Nat.toDigits_ne_nil (head?_toDigits hpos) (Radix.writes_toDigits .decimal n)
  | octal zeros => exact .octal ((Radix.writes_toDigits .octal n).leadingZeros zeros)
  | @hexadecimal mark digits hmark zeros hdigits =>
      have hwrites := writes_of_forall₂ hdigits (Radix.writes_toDigits .hexadecimal n)
      refine .hexadecimal hmark (List.append_ne_nil_of_right_ne_nil _ ?_)
        (hwrites.leadingZeros zeros)
      rintro rfl
      exact Nat.toDigits_ne_nil (List.forall₂_nil_left_iff.mp hdigits)

end Literal

namespace Lexeme

open Literal (Longest Judged Spelling)

/-- What a verdict on a literal of `length` characters makes of it. -/
def ofVerdict (length : Nat) : Except Literal.Fault Int64 → Except Fault Lexeme
  | .ok value => .ok ⟨.literal value, length⟩
  | .error fault => .error ⟨.literal fault, fault.offset length, length⟩

variable {rest spelled : List Char} {l : Literal} {verdict : Except Literal.Fault Int64}

theorem ofLiteral_of_judged (h : Longest rest spelled l) (hjudged : Judged l rest.head? verdict) :
    ofLiteral (spelled ++ rest) = ofVerdict spelled.length verdict := by
  simp only [ofLiteral, h.scan_eq, h.length_eq, List.drop_left, hjudged.read_eq]
  cases verdict with
  | ok value => rfl
  | error fault => cases fault <;> rfl

theorem scan_of_isDigit {c : Char} (hc : c.isDigit) (text : List Char) :
    scan (c :: text) = ofLiteral (c :: text) := by
  simp only [scan, List.head?_cons, if_neg (not_isWordStart_of_isDigit hc), if_pos hc]

/-- At a digit, the longest literal is read and judged. -/
theorem ofLiteral_eq_iff {c : Char} (hc : c.isDigit) (text : List Char)
    {outcome : Except Fault Lexeme} :
    ofLiteral (c :: text) = outcome ↔
      ∃ spelled rest l verdict, c :: text = spelled ++ rest ∧ Longest rest spelled l ∧
        Judged l rest.head? verdict ∧ outcome = ofVerdict spelled.length verdict := by
  constructor
  · rintro rfl
    obtain ⟨spelled, rest, htext, hlongest⟩ := Literal.exists_longest hc text
    obtain ⟨verdict, hjudged⟩ := hlongest.exists_judged rest.head?
    refine ⟨spelled, rest, _, verdict, htext, hlongest, hjudged, ?_⟩
    rw [htext, ofLiteral_of_judged hlongest hjudged]
  · rintro ⟨spelled, rest, l, verdict, htext, hlongest, hjudged, rfl⟩
    rw [htext, ofLiteral_of_judged hlongest hjudged]

/-- At a digit, the literal that is read is the longest one. It has its value if it is well
formed, nothing stands next to it that may not, and 64 signed bits hold the value; otherwise
the first of these that fails is the fault. So a number can be written in any radix, with
small or capital digits and with zeros in front where the radix has a mark. -/
theorem literal_exact :
    (∀ (c : Char) (text : List Char), c.isDigit →
      scan (c :: text) = ofLiteral (c :: text) ∧
        ∀ outcome, ofLiteral (c :: text) = outcome ↔
          ∃ spelled rest l verdict, c :: text = spelled ++ rest ∧ Longest rest spelled l ∧
            Judged l rest.head? verdict ∧ outcome = ofVerdict spelled.length verdict) ∧
    ∀ (n : Nat) (spelled rest : List Char), n < 2 ^ 63 → Spelling n spelled →
      (∀ c ∈ rest.head?, ¬Literal.isSuffix c) →
        ∃ value : Int64, value.toInt = n ∧
          ofLiteral (spelled ++ rest) = .ok ⟨.literal value, spelled.length⟩ := by
  refine ⟨fun c text hc => ⟨scan_of_isDigit hc text, fun outcome => ofLiteral_eq_iff hc text⟩, ?_⟩
  intro n spelled rest hn hspelling hrest
  obtain ⟨c, later, rfl, hc⟩ := hspelling.numeral.exists_cons
  refine ⟨.ofNat n, Int64.toInt_ofNat_of_lt hn, ?_⟩
  rw [List.cons_append, ← scan_of_isDigit hc, ← List.cons_append]
  exact (Lexical.literal hspelling.numeral hn hrest).scan_eq

/-- Only the first of three faults is told; and the largest value, with a zero in front
of it and digits of both kinds. -/
theorem literal_exact_limits :
    ofLiteral ['0', '7', '9', '8', '_'] = .error ⟨.literal (.octalDigit '9'), 0, 4⟩ ∧
      ∃ value : Int64, value.toInt = 2 ^ 63 - 1 ∧
        ofLiteral (['0', 'X', '0', '7', 'F'] ++ List.replicate 14 'f' ++ [';']) =
          .ok ⟨.literal value, 19⟩ := by
  obtain ⟨hjudged, hspelled⟩ := literal_exact
  constructor
  · have hseven : Radix.octal.Digit '7' := ⟨7, by decide⟩
    have hdigits : ∀ c ∈ ['7', '9', '8'], Radix.decimal.Digit c := by
      simp only [Radix.digit_decimal]
      simp
    have hend : ¬Radix.decimal.Digit '_' := by
      rw [Radix.digit_decimal]
      decide
    have hlongest : Longest ['_'] ['0', '7', '9', '8'] ⟨.octal, ['7', '9', '8']⟩ :=
      .octal hdigits (by simpa using hend) (by simp)
    have hfault : Judged ⟨.octal, ['7'] ++ '9' :: ['8']⟩ (some '_') (.error (.octalDigit '9')) :=
      .octalDigit (by simpa using hseven) (.inr rfl)
    exact ((hjudged '0' _ (by decide)).2 _).mpr ⟨_, _, _, _, rfl, hlongest, hfault, rfl⟩
  · have hdigits : Nat.toDigits 16 (2 ^ 63 - 1) = ['7', 'f'] ++ List.replicate 14 'f' := by cbv
    have hcases : List.Forall₂ (fun c d => c = d ∨ c = d.toUpper)
        (['7', 'F'] ++ List.replicate 14 'f') (Nat.toDigits 16 (2 ^ 63 - 1)) := by
      rw [hdigits]
      decide
    exact hspelled _ _ [';'] (by decide) (.hexadecimal (.inr rfl) 1 hcases) (by simp; decide)

end Lexeme

end MicroC
