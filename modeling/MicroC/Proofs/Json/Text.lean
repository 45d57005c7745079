import MicroC.Proofs.Json.Grammar
import MicroC.Proofs.Token.Spelling

/-!
Every text of a value is read as that value. The statements let any text follow a
value, since the end of a number shows only in what follows it.
-/

namespace MicroC.Json

/-! ### Blanks -/

theorem skipBlanks_append {blanks : List Char} (h : Blank blanks) (cs : List Char) :
    skipBlanks (blanks ++ cs) = skipBlanks cs := List.dropWhile_append_of_pos h

theorem skipBlanks_cons {c : Char} (h : isBlank c = false) (cs : List Char) :
    skipBlanks (c :: cs) = c :: cs := by
  rw [skipBlanks, List.dropWhile_cons, if_neg (by simp [h])]

theorem skipBlanks_skipBlanks (cs : List Char) : skipBlanks (skipBlanks cs) = skipBlanks cs := by
  rw [skipBlanks, skipBlanks, List.dropWhile_idempotent]

/-- Blanks in front of a value do not matter. -/
theorem readValue_skipBlanks (fuel : Nat) (cs : List Char) :
    readValue fuel (skipBlanks cs) = readValue fuel cs := by
  cases fuel with
  | zero => rfl
  | succ fuel => rw [readValue, readValue, skipBlanks_skipBlanks]

theorem readItems_skipBlanks (fuel : Nat) (cs : List Char) :
    readItems fuel (skipBlanks cs) = readItems fuel cs := by
  cases fuel with
  | zero => rfl
  | succ fuel => rw [readItems, readItems, readValue_skipBlanks]

theorem readMembers_skipBlanks (fuel : Nat) (cs : List Char) :
    readMembers fuel (skipBlanks cs) = readMembers fuel cs := by
  cases fuel with
  | zero => rfl
  | succ fuel => rw [readMembers, readMembers, skipBlanks_skipBlanks]

theorem readValue_append {blanks : List Char} (h : Blank blanks) (fuel : Nat) (cs : List Char) :
    readValue fuel (blanks ++ cs) = readValue fuel cs := by
  rw [← readValue_skipBlanks, skipBlanks_append h, readValue_skipBlanks]

/-! ### Strings -/

theorem readString_spellsChar {c : Char} {piece : List Char} (h : SpellsChar c piece)
    (done rest : List Char) : readString done (piece ++ rest) = readString (c :: done) rest := by
  cases h with
  | plain hquote hbackslash hcontrol =>
      have hplain : ¬(c == '\\' || decide (c.toNat < 0x20)) = true := by
        simpa [Nat.not_lt_of_le hcontrol] using hbackslash
      rw [List.singleton_append, readString.eq_5 _ _ _ hquote (fun _ _ _ _ _ h _ => hbackslash h)
        (fun _ _ h _ => hbackslash h), if_neg hplain]
  | @short letter _ h =>
      unfold unescape? at h
      split at h <;> cases h <;> simp [readString, unescape?]
  | unit h hhigh hlow => simp [readString, h, hhigh, hlow]
  | @pair _ _ _ _ _ _ _ _ high low hfirst hhigh hsecond hlow =>
      have hnot : isLowSurrogate high = false := by
        simp only [isHighSurrogate, Bool.and_eq_true, decide_eq_true_eq] at hhigh
        simp only [isLowSurrogate, Bool.and_eq_false_iff, decide_eq_false_iff_not]
        omega
      simp [readString, hfirst, hhigh, hsecond, hlow, hnot]

theorem readString_spellsChars {s text : List Char} (h : SpellsChars s text)
    (done rest : List Char) :
    readString done (text ++ '"' :: rest) = some (.ofList (done.reverse ++ s), rest) := by
  induction h generalizing done with
  | nil => simp [readString]
  | cons hc hs ih =>
      rw [List.append_assoc, readString_spellsChar hc, ih]
      simp

/-- The text of a string, after its opening quote. -/
theorem readString_quotes {s : String} {text : List Char} (h : SpellsChars s.toList text)
    (rest : List Char) : readString [] (text ++ '"' :: rest) = some (s, rest) := by
  rw [readString_spellsChars h]
  simp

/-! ### Numbers -/

/-- A character that cannot go on with a number. -/
def EndsNumber (c : Char) : Prop := ¬c.isDigit ∧ c ≠ '.' ∧ c ≠ 'e' ∧ c ≠ 'E'

instance : DecidablePred EndsNumber := fun c =>
  inferInstanceAs (Decidable (¬c.isDigit ∧ c ≠ '.' ∧ c ≠ 'e' ∧ c ≠ 'E'))

/-- What follows a value does not belong to it, even if the value is a number. -/
def Ends (rest : List Char) : Prop := ∀ c ∈ rest.head?, EndsNumber c

theorem ends_nil : Ends [] := by
  intro c hc
  cases hc

theorem ends_cons {c : Char} (h : EndsNumber c) (rest : List Char) : Ends (c :: rest) := by
  rintro d ⟨⟩
  exact h

variable {rest : List Char}

theorem readDigits_append {digits : List Char} (hne : digits ≠ [])
    (hdigits : ∀ c ∈ digits, c.isDigit) (hrest : Ends rest) :
    readDigits (digits ++ rest) = some (digits, rest) := by
  have htake : rest.takeWhile Char.isDigit = [] := by
    cases rest with
    | nil => rfl
    | cons c rest => rw [List.takeWhile_cons, if_neg (hrest c rfl).1]
  have hdrop : rest.dropWhile Char.isDigit = rest := by
    cases rest with
    | nil => rfl
    | cons c rest => rw [List.dropWhile_cons, if_neg (hrest c rfl).1]
  obtain ⟨c, digits, rfl⟩ := List.exists_cons_of_ne_nil hne
  simp only [readDigits, List.takeWhile_append_of_pos hdigits, htake, List.append_nil,
    List.dropWhile_append_of_pos hdigits, hdrop]

theorem readFraction_of_ends (h : Ends rest) : readFraction rest = some ([], rest) := by
  cases rest with
  | nil => rfl
  | cons c rest =>
      rw [readFraction.eq_2]
      rintro rest' ⟨⟩
      exact (h '.' rfl).2.1 rfl

theorem readExponent_of_ends (h : Ends rest) : readExponent rest = some ([], rest) := by
  cases rest with
  | nil => rfl
  | cons c rest =>
      rw [readExponent.eq_3]
      · rintro rest' ⟨⟩
        exact (h 'e' rfl).2.2.1 rfl
      · rintro rest' ⟨⟩
        exact (h 'E' rfl).2.2.2 rfl

/-- Negative zero is not written. -/
theorem readUnsigned_toDigits {negative : Bool} {n : Nat} (hn : negative = true → 0 < n)
    (hrest : Ends rest) :
    readUnsigned negative (Nat.toDigits 10 n ++ rest) =
      some (.integer (if negative then -n else n), rest) := by
  have hdigits : ∀ c ∈ Nat.toDigits 10 n, c.isDigit := fun c hc =>
    Nat.isDigit_of_mem_toDigits (by decide) (by decide) hc
  have hread := readDigits_append Nat.toDigits_ne_nil hdigits hrest
  have hzero : ¬((Nat.toDigits 10 n).head? = some '0' ∧ (Nat.toDigits 10 n).length ≠ 1) := by
    rintro ⟨hhead, hlength⟩
    by_cases h : n = 0
    · subst h
      exact hlength rfl
    · exact Literal.head?_toDigits (Nat.pos_of_ne_zero h) hhead
  have hsign : negative = true → n ≠ 0 := fun h => Nat.ne_of_gt (hn h)
  simpa [readUnsigned, hread, hzero, readFraction_of_ends hrest, readExponent_of_ends hrest,
    Nat.ofDigitChars_ten_toDigits] using hsign

/-- An integer is written as digits, after a sign if it is negative. -/
theorem exists_toString (n : Int) :
    ∃ negative m, (toString n).toList = (if negative then ['-'] else []) ++ Nat.toDigits 10 m ∧
      (negative = true → 0 < m) ∧ n = if negative then -(m : Int) else m := by
  cases n with
  | ofNat m => exact ⟨false, m, Nat.toList_repr, by simp, rfl⟩
  | negSucc m =>
      refine ⟨true, m + 1, ?_, fun _ => Nat.succ_pos m, Int.negSucc_eq m⟩
      show ("-" ++ Nat.repr (m + 1)).toList = _
      rw [String.toList_append, Nat.toList_repr]
      rfl

/-- A digit or a sign begins a number. -/
def BeginsNumber (c : Char) : Prop := c = '-' ∨ c.isDigit

instance : DecidablePred BeginsNumber := fun c => inferInstanceAs (Decidable (c = '-' ∨ c.isDigit))

theorem exists_toString_cons (n : Int) :
    ∃ c cs, (toString n).toList = c :: cs ∧ BeginsNumber c := by
  obtain ⟨negative, m, htext, -, -⟩ := exists_toString n
  cases negative with
  | true => exact ⟨'-', _, htext, .inl rfl⟩
  | false =>
      obtain ⟨c, cs, hcons⟩ := List.exists_cons_of_ne_nil (Nat.toDigits_ne_nil (n := m) (b := 10))
      refine ⟨c, cs, htext.trans hcons, .inr ?_⟩
      exact Nat.isDigit_of_mem_toDigits (by decide) (by decide) (hcons ▸ List.mem_cons_self)

theorem readNumber_toString (n : Int) (hrest : Ends rest) :
    readNumber ((toString n).toList ++ rest) = some (.integer n, rest) := by
  obtain ⟨negative, m, htext, hpos, hn⟩ := exists_toString n
  have hread := readUnsigned_toDigits hpos hrest
  rw [htext, hn]
  cases negative with
  | true => exact hread
  | false =>
      obtain ⟨c, cs, hcons⟩ := List.exists_cons_of_ne_nil (Nat.toDigits_ne_nil (n := m) (b := 10))
      have hc : c.isDigit :=
        Nat.isDigit_of_mem_toDigits (by decide) (by decide) (hcons ▸ List.mem_cons_self)
      rw [← hread]
      simp only [Bool.false_eq_true, if_false, List.nil_append, hcons, List.cons_append]
      rw [readNumber.eq_2]
      rintro cs' ⟨⟩
      exact absurd hc (by decide)

theorem isBlank_of_beginsNumber {c : Char} (hc : BeginsNumber c) : isBlank c = false := by
  rw [Bool.eq_false_iff]
  intro h
  simp only [isBlank, Bool.or_eq_true, beq_iff_eq] at h
  rcases h with ((rfl | rfl) | rfl) | rfl <;> exact absurd hc (by decide)

theorem readValue_of_beginsNumber {c : Char} (hc : BeginsNumber c) (fuel : Nat) (cs : List Char) :
    readValue (fuel + 1) (c :: cs) = readNumber (c :: cs) := by
  rw [readValue, skipBlanks_cons (isBlank_of_beginsNumber hc)]
  split
  iterate 6 next h =>
    obtain ⟨rfl, -⟩ := List.cons.inj h
    exact absurd hc (by decide)
  rfl

/-! ### Values -/

variable {fuel : Nat} {cs text : List Char}

theorem endsNumber_of_isBlank {c : Char} (h : isBlank c) : EndsNumber c := by
  simp only [isBlank, Bool.or_eq_true, beq_iff_eq] at h
  rcases h with ((rfl | rfl) | rfl) | rfl <;> decide

theorem ends_append {blanks : List Char} (hblanks : Blank blanks) (hrest : Ends rest) :
    Ends (blanks ++ rest) := by
  cases blanks with
  | nil => exact hrest
  | cons c blanks => exact ends_cons (endsNumber_of_isBlank (hblanks c List.mem_cons_self)) _

/-- A value does not begin with a blank, nor with the bracket that ends an array. -/
theorem exists_spells_cons {j : Json} (h : Spells j cs) :
    ∃ c cs', cs = c :: cs' ∧ isBlank c = false ∧ c ≠ ']' := by
  cases j with
  | null => exact ⟨'n', _, h, by decide, by decide⟩
  | bool value =>
      cases value with
      | true => exact ⟨'t', _, h, by decide, by decide⟩
      | false => exact ⟨'f', _, h, by decide, by decide⟩
  | integer n =>
      obtain ⟨c, cs', hcons, hc⟩ := exists_toString_cons n
      refine ⟨c, cs', Eq.trans h hcons, isBlank_of_beginsNumber hc, ?_⟩
      rintro rfl
      exact absurd hc (by decide)
  | decimal spelling => exact absurd h id
  | string s =>
      obtain ⟨text, rfl, -⟩ := h
      exact ⟨'"', _, rfl, by decide, by decide⟩
  | array items =>
      obtain ⟨inner, rfl, -⟩ := h
      exact ⟨'[', _, rfl, by decide, by decide⟩
  | object members =>
      obtain ⟨inner, rfl, -⟩ := h
      exact ⟨'{', _, rfl, by decide, by decide⟩

theorem exists_skipBlanks_padded {j : Json} (h : Padded (Spells j) text) (rest : List Char) :
    ∃ c cs', skipBlanks (text ++ rest) = c :: cs' ∧ c ≠ ']' := by
  obtain ⟨before, inner, after, rfl, hbefore, hinner, -⟩ := h
  obtain ⟨c, cs', rfl, hblank, hc⟩ := exists_spells_cons hinner
  refine ⟨c, cs' ++ (after ++ rest), ?_, hc⟩
  rw [List.append_assoc, skipBlanks_append hbefore, List.append_assoc, List.cons_append,
    skipBlanks_cons hblank]

theorem exists_skipBlanks_items {item : Json} {items : List Json}
    (h : SpellsItems (item :: items) text) (rest : List Char) :
    ∃ c cs', skipBlanks (text ++ rest) = c :: cs' ∧ c ≠ ']' := by
  cases items with
  | nil => exact exists_skipBlanks_padded h rest
  | cons next items =>
      obtain ⟨first, others, rfl, hitem, -⟩ := h
      rw [List.append_assoc]
      exact exists_skipBlanks_padded hitem _

/-- A string, with the blanks around it, in front of something else. -/
theorem exists_skipBlanks_quotes {name : String} (h : Padded (Quotes name) text) (rest : List Char) :
    ∃ inner after, skipBlanks (text ++ rest) = '"' :: (inner ++ '"' :: (after ++ rest)) ∧
      SpellsChars name.toList inner ∧ Blank after := by
  obtain ⟨before, _, after, rfl, hbefore, ⟨inner, rfl, hinner⟩, hafter⟩ := h
  refine ⟨inner, after, ?_, hinner, hafter⟩
  rw [List.append_assoc, skipBlanks_append hbefore]
  simp [skipBlanks_cons (c := '"') (by decide)]

theorem exists_skipBlanks_members {name : String} {value : Json} {members : List (String × Json)}
    (h : SpellsMembers ((name, value) :: members) text) (rest : List Char) :
    ∃ cs', skipBlanks (text ++ rest) = '"' :: cs' := by
  cases members with
  | nil =>
      obtain ⟨key, inner, rfl, hkey, -⟩ := h
      obtain ⟨_, _, hskip, -⟩ := exists_skipBlanks_quotes hkey (':' :: inner ++ rest)
      exact ⟨_, by rw [List.append_assoc]; exact hskip⟩
  | cons next members =>
      obtain ⟨first, others, rfl, ⟨key, inner, rfl, hkey, -⟩, -⟩ := h
      obtain ⟨_, _, hskip, -⟩ := exists_skipBlanks_quotes hkey (':' :: inner ++ ',' :: others ++ rest)
      exact ⟨_, by simpa using hskip⟩

theorem readValue_array {c : Char} {cs' : List Char} (h : skipBlanks cs = c :: cs')
    (hc : c ≠ ']') :
    readValue (fuel + 1) ('[' :: cs) =
      (readItems fuel cs).map fun (items, rest) => (.array items, rest) := by
  have hopen : skipBlanks ('[' :: cs) = '[' :: cs := skipBlanks_cons (by decide) cs
  rw [← readItems_skipBlanks]
  simp only [readValue, hopen, h]
  split
  · rename_i heq
    exact absurd (List.cons.inj heq).1 hc
  · rfl

theorem readValue_object {cs' : List Char} (h : skipBlanks cs = '"' :: cs') :
    readValue (fuel + 1) ('{' :: cs) =
      (readMembers fuel cs).map fun (members, rest) => (.object members, rest) := by
  have hopen : skipBlanks ('{' :: cs) = '{' :: cs := skipBlanks_cons (by decide) cs
  rw [← readMembers_skipBlanks]
  simp only [readValue, hopen, h]
  rfl

/-- The value is read from each of its texts that is short enough for the fuel. -/
def Reads (fuel : Nat) (j : Json) : Prop :=
  ∀ cs rest, Spells j cs → cs.length ≤ fuel → Ends rest →
    readValue fuel (cs ++ rest) = some (j, rest)

theorem Reads.padded {j : Json} {rest : List Char} (hread : Reads fuel j)
    (h : Padded (Spells j) text) (hlength : text.length ≤ fuel) (hrest : Ends rest) :
    ∃ rest', readValue fuel (text ++ rest) = some (j, rest') ∧
      skipBlanks rest' = skipBlanks rest := by
  obtain ⟨before, inner, after, rfl, hbefore, hinner, hafter⟩ := h
  simp only [List.length_append] at hlength
  refine ⟨after ++ rest, ?_, skipBlanks_append hafter rest⟩
  rw [List.append_assoc, readValue_append hbefore, List.append_assoc]
  exact hread inner _ hinner (by omega) (ends_append hafter hrest)

theorem Reads.pairs {name : String} {value : Json} {rest : List Char} (hread : Reads fuel value)
    (h : Pairs name (Spells value) text) (hlength : text.length ≤ fuel) (hrest : Ends rest) :
    ∃ afterQuote afterName afterColon rest',
      skipBlanks (text ++ rest) = '"' :: afterQuote ∧
      readString [] afterQuote = some (name, afterName) ∧
      skipBlanks afterName = ':' :: afterColon ∧
      readValue fuel afterColon = some (value, rest') ∧ skipBlanks rest' = skipBlanks rest := by
  obtain ⟨key, inner, rfl, hkey, hvalue⟩ := h
  simp only [List.length_append, List.length_cons] at hlength
  obtain ⟨quoted, after, hskip, hquoted, hafter⟩ :=
    exists_skipBlanks_quotes hkey (':' :: (inner ++ rest))
  obtain ⟨rest', hvalue', hrest'⟩ := hread.padded hvalue (by omega) hrest
  refine ⟨_, _, inner ++ rest, rest', by simpa using hskip, readString_quotes hquoted _, ?_,
    hvalue', hrest'⟩
  rw [skipBlanks_append hafter, skipBlanks_cons (by decide)]

mutual

/-- A value is read from any of its texts, if the reader may go as deep as the text is
long. -/
theorem reads (fuel : Nat) (j : Json) : Reads fuel j := by
  intro cs rest h hfuel hrest
  obtain ⟨fuel, rfl⟩ : ∃ n, fuel = n + 1 := by
    obtain ⟨c, cs', rfl, -, -⟩ := exists_spells_cons h
    rw [List.length_cons] at hfuel
    exact ⟨fuel - 1, by omega⟩
  cases j with
  | null =>
      obtain rfl : cs = _ := h
      rfl
  | bool value =>
      cases value with
      | true =>
          obtain rfl : cs = _ := h
          rfl
      | false =>
          obtain rfl : cs = _ := h
          rfl
  | integer n =>
      obtain rfl : cs = _ := h
      obtain ⟨c, cs, hcons, hc⟩ := exists_toString_cons n
      have hread := readNumber_toString n hrest
      rw [hcons, List.cons_append] at hread ⊢
      rw [readValue_of_beginsNumber hc, hread]
  | decimal spelling => exact absurd h id
  | string s =>
      obtain ⟨text, rfl, htext⟩ := h
      have hopen := skipBlanks_cons (c := '"') (by decide) (text ++ '"' :: rest)
      simp [readValue, hopen, readString_quotes htext]
  | array items =>
      obtain ⟨inner, rfl, hinner⟩ := h
      simp only [List.length_cons, List.length_append] at hfuel
      cases items with
      | nil =>
          have hclose := skipBlanks_append hinner (']' :: rest)
          rw [skipBlanks_cons (by decide)] at hclose
          have hopen := skipBlanks_cons (c := '[') (by decide) (inner ++ ']' :: rest)
          simp [readValue, hopen, hclose]
      | cons item items =>
          obtain ⟨c, cs', hskip, hc⟩ := exists_skipBlanks_items hinner (']' :: rest)
          have hitems := readItems_spells fuel (item :: items) (List.cons_ne_nil _ _) hinner
            (by omega) rest
          simp [readValue_array hskip hc, hitems]
  | object members =>
      obtain ⟨inner, rfl, hinner⟩ := h
      simp only [List.length_cons, List.length_append] at hfuel
      cases members with
      | nil =>
          have hclose := skipBlanks_append hinner ('}' :: rest)
          rw [skipBlanks_cons (by decide)] at hclose
          have hopen := skipBlanks_cons (c := '{') (by decide) (inner ++ '}' :: rest)
          simp [readValue, hopen, hclose]
      | cons member members =>
          obtain ⟨cs', hskip⟩ := exists_skipBlanks_members hinner ('}' :: rest)
          have hmembers := readMembers_spells fuel (member :: members) (List.cons_ne_nil _ _)
            hinner (by omega) rest
          simp [readValue_object hskip, hmembers]

theorem readItems_spells (fuel : Nat) (items : List Json) (hne : items ≠ []) {cs : List Char}
    (h : SpellsItems items cs) (hfuel : cs.length < fuel) (rest : List Char) :
    readItems fuel (cs ++ ']' :: rest) = some (items, rest) := by
  obtain ⟨fuel, rfl⟩ : ∃ n, fuel = n + 1 := ⟨fuel - 1, by omega⟩
  cases items with
  | nil => exact absurd rfl hne
  | cons item items =>
      cases items with
      | nil =>
          have hends := ends_cons (c := ']') (by decide) rest
          obtain ⟨rest', hitem, hrest'⟩ :=
            (reads fuel item).padded h (Nat.le_of_lt_succ hfuel) hends
          rw [skipBlanks_cons (by decide)] at hrest'
          simp only [readItems, hitem, hrest']
      | cons next items =>
          obtain ⟨first, others, rfl, hfirst, hothers⟩ := h
          simp only [List.length_append, List.length_cons] at hfuel
          have hlater := readItems_spells fuel (next :: items) (List.cons_ne_nil _ _) hothers
            (by omega) rest
          have hends := ends_cons (c := ',') (by decide) (others ++ ']' :: rest)
          obtain ⟨rest', hitem, hrest'⟩ := (reads fuel item).padded hfirst (by omega) hends
          rw [skipBlanks_cons (by decide)] at hrest'
          simp only [List.append_assoc, List.cons_append, readItems, hitem, hrest', hlater,
            Option.map_some]

theorem readMembers_spells (fuel : Nat) (members : List (String × Json)) (hne : members ≠ [])
    {cs : List Char} (h : SpellsMembers members cs) (hfuel : cs.length < fuel)
    (rest : List Char) :
    readMembers fuel (cs ++ '}' :: rest) = some (members, rest) := by
  obtain ⟨fuel, rfl⟩ : ∃ n, fuel = n + 1 := ⟨fuel - 1, by omega⟩
  cases members with
  | nil => exact absurd rfl hne
  | cons member members =>
      obtain ⟨name, value⟩ := member
      cases members with
      | nil =>
          have hends := ends_cons (c := '}') (by decide) rest
          obtain ⟨_, _, _, rest', hquote, hname, hcolon, hvalue, hrest'⟩ :=
            (reads fuel value).pairs h (Nat.le_of_lt_succ hfuel) hends
          rw [skipBlanks_cons (by decide)] at hrest'
          simp only [readMembers, hquote, hname, hcolon, hvalue, hrest']
      | cons next members =>
          obtain ⟨first, others, rfl, hfirst, hothers⟩ := h
          simp only [List.length_append, List.length_cons] at hfuel
          have hlater := readMembers_spells fuel (next :: members) (List.cons_ne_nil _ _) hothers
            (by omega) rest
          have hends := ends_cons (c := ',') (by decide) (others ++ '}' :: rest)
          obtain ⟨_, _, _, rest', hquote, hname, hcolon, hvalue, hrest'⟩ :=
            (reads fuel value).pairs hfirst (by omega) hends
          rw [skipBlanks_cons (by decide)] at hrest'
          simp only [List.append_assoc, List.cons_append, readMembers, hquote, hname, hcolon,
            hvalue, hrest', hlater, Option.map_some]

end

/-- A whole text is read as the value that it holds. -/
theorem parse?_denotes {j : Json} {text : String} (h : Denotes j text) :
    parse? text = some j := by
  obtain ⟨rest, hread, hrest⟩ :=
    (reads (2 * text.toList.length + 2) j).padded h (by omega) ends_nil
  rw [List.append_nil] at hread
  have hend : skipBlanks rest = [] := hrest
  simp only [parse?, hread, hend, List.isEmpty_nil, if_true]

end MicroC.Json
