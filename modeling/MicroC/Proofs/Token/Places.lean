import MicroC.Proofs.Token.Division
import MicroC.Proofs.Token.Numeral

/-!
Where the cursor stands after any calls, whether or not they gave tokens. What lies behind
it fixes its line and column; a call moves it on over layout and a lexeme, or up to where it
stopped reading. So each token spans its lexeme, the tokens are in order, and an error is at
the character that it is about.
-/

namespace MicroC

open Token (Kind)
open Unicode (isWhiteSpace)

/-! ### Places in order -/

/-- The last line of a text is no longer than the text. -/
theorem length_lastLine_le (text : List Char) :
    (text.reverse.takeWhile (· ≠ '\n')).length ≤ text.length := by
  simpa using (List.takeWhile_prefix (· ≠ '\n') (l := text.reverse)).length_le

namespace Location

/-- Not after another place of the same text. -/
instance : LE Location := ⟨fun a b => a.line < b.line ∨ a.line = b.line ∧ a.column ≤ b.column⟩

variable {file : String} {before : List Char}

/-- A text that is short enough has a place after each of its characters. -/
theorem toNat_after (file : String) (h : before.length + 1 < UInt32.size) :
    (after file before).line.toNat = before.count '\n' + 1 ∧
      (after file before).column.toNat = (before.reverse.takeWhile (· ≠ '\n')).length + 1 := by
  have hline : before.count '\n' ≤ before.length := List.count_le_length
  have hcolumn := length_lastLine_le before
  constructor
  · exact UInt32.toNat_ofNat_of_lt' (by omega)
  · exact UInt32.toNat_ofNat_of_lt' (by omega)

theorem after_le_after (file : String) {more : List Char}
    (h : (before ++ more).length + 1 < UInt32.size) :
    after file before ≤ after file (before ++ more) := by
  have hbefore : before.length + 1 < UInt32.size := by
    rw [List.length_append] at h
    omega
  obtain ⟨hline, hcolumn⟩ := toNat_after file hbefore
  obtain ⟨hline', hcolumn'⟩ := toNat_after file h
  by_cases hfeed : '\n' ∈ more
  · left
    rw [UInt32.lt_iff_toNat_lt, hline, hline', List.count_append]
    have hpos := List.count_pos_iff.mpr hfeed
    omega
  · right
    have hnone : more.count '\n' = 0 := List.count_eq_zero.mpr hfeed
    have hall : ∀ c ∈ more.reverse, decide (c ≠ '\n') = true := by
      intro c hc
      exact decide_eq_true fun heq => hfeed (heq ▸ List.mem_reverse.mp hc)
    rw [← UInt32.toNat_inj, UInt32.le_iff_toNat_le, hline, hline', hcolumn, hcolumn',
      List.count_append, hnone, List.reverse_append, List.takeWhile_append_of_pos hall,
      List.length_append]
    omega

end Location

/-! ### One call -/

/-- A character that begins neither layout nor a lexeme. -/
structure Stray (c : Char) (rest : List Char) : Prop where
  blank : ¬isWhiteSpace c
  comment : c = '/' → ∀ d ∈ rest.head?, d ≠ '/' ∧ d ≠ '*'
  word : ¬Lexeme.isWordStart c
  digit : ¬c.isDigit
  mark : ∀ kind, ¬Marks c kind

/-- What a call gives in a text after the characters `before`, and the characters that it
passes. -/
inductive Call (file : String) (before : List Char) :
    List Char → List Char → Except (Halt LexicalError) Token → Prop
  | token {layout lexeme rest : List Char} {kind : Kind} (hlayout : Layout.Spelled layout)
      (hlexeme : Lexical rest lexeme kind) :
      Call file before (layout ++ (lexeme ++ rest)) (layout ++ lexeme)
        (.ok ⟨kind, .after file (before ++ layout), .after file (before ++ layout ++ lexeme)⟩)
  | finish {last : List Char} (h : Layout.Trailing last) :
      Call file before last last (.ok ⟨.endOfFile, .point (.after file (before ++ last))⟩)
  | comment {layout body : List Char} (hlayout : Layout.Spelled layout)
      (hbody : ¬Layout.closing <:+: body) :
      Call file before (layout ++ '/' :: '*' :: body) (layout ++ '/' :: '*' :: body)
        (.error (.failure ⟨.after file (before ++ layout), .unterminatedComment⟩))
  | literal {layout spelled rest : List Char} {l : Literal} {fault : Literal.Fault}
      (hlayout : Layout.Spelled layout) (hlongest : Literal.Longest rest spelled l)
      (hfault : Literal.Judged l rest.head? (.error fault)) (hother : ∀ c, fault ≠ .suffix c) :
      Call file before (layout ++ (spelled ++ rest)) (layout ++ spelled)
        (.error (.failure ⟨.after file (before ++ layout), .literal fault⟩))
  | suffix {layout spelled rest : List Char} {l : Literal} {c : Char}
      (hlayout : Layout.Spelled layout) (hlongest : Literal.Longest (c :: rest) spelled l)
      (h : l.WellFormed) (hc : Literal.isSuffix c) :
      Call file before (layout ++ (spelled ++ c :: rest)) (layout ++ spelled)
        (.error (.failure ⟨.after file (before ++ layout ++ spelled), .literal (.suffix c)⟩))
  | unexpected {layout rest : List Char} {c : Char} (hlayout : Layout.Spelled layout)
      (hc : Stray c rest) :
      Call file before (layout ++ c :: rest) layout
        (.error (.failure ⟨.after file (before ++ layout), .unexpectedCharacter c⟩))

namespace Layout

/-- All of the layout was read. -/
theorem Splits.length_rest {text front rest : List Char} (h : Splits text front rest) :
    length rest = 0 := by
  rcases h.layout with hfront | ⟨rfl, -⟩
  · have hlength := h.length_eq
    rw [h.text_eq, hfront.length_append] at hlength
    omega
  · rfl

/-- What opens a comment is no layout only if the comment is not closed. -/
theorem not_closing_of_length {body : List Char} (h : length ('/' :: '*' :: body) = 0) :
    ¬closing <:+: body := by
  intro hclosed
  obtain ⟨inside, rest, rfl, hinside⟩ := exists_closing hclosed
  have hspelled : Spelled ('/' :: '*' :: (inside ++ closing ++ [])) := .blockComment hinside .nil
  have hlength := hspelled.length_append rest
  simp only [List.append_nil, List.cons_append] at hlength
  rw [h, List.length_cons] at hlength
  omega

theorem not_isWhiteSpace_of_length {c : Char} {rest : List Char} (h : length (c :: rest) = 0) :
    ¬isWhiteSpace c := by
  intro hc
  rw [length_cons_of_isWhiteSpace hc] at h
  omega

/-- Two slashes begin a comment, whether or not a line feed ends it. -/
theorem length_ne_zero_of_slashes (rest : List Char) : length ('/' :: '/' :: rest) ≠ 0 := by
  by_cases hfeed : '\n' ∈ rest
  · obtain ⟨body, later, rfl, hbody⟩ := List.eq_append_cons_of_mem hfeed
    rw [length, scan, scan_lineComment hbody, scan_between_add]
    omega
  · rw [length, scan, scan_lineComment_open hfeed]
    omega

end Layout

namespace Lexeme

variable {text : List Char} {fault : Fault}

theorem ofMark_eq_error {c : Char} {rest : List Char} (h : ofMark (c :: rest) = .error fault) :
    (∃ body, c = '/' ∧ rest = '*' :: body ∧
        fault = ⟨.unterminatedComment, 0, (c :: rest).length⟩) ∨
      (∀ kind, ¬Marks c kind) ∧ (c = '/' → rest.head? ≠ some '*') ∧
        fault = ⟨.unexpectedCharacter c, 0, 0⟩ := by
  generalize htext : c :: rest = text at h
  unfold ofMark at h
  split at h
  · cases htext
  · cases h
  · cases h
  · cases h
  · cases h
  · cases h
  · cases h
    cases htext
    exact .inl ⟨_, rfl, rfl, rfl⟩
  · rename_i d later hopen hclose hleft hright hsemicolon hcomment
    cases h
    cases htext
    refine .inr ⟨fun kind hmark => ?_, ?_, rfl⟩
    · cases hmark with
      | leftParen => exact hopen rfl
      | rightParen => exact hclose rfl
      | leftBrace => exact hleft rfl
      | rightBrace => exact hright rfl
      | semicolon => exact hsemicolon rfl
    · intro hslash hstar
      obtain ⟨body, rfl⟩ := List.head?_eq_some_iff.mp hstar
      exact hcomment body hslash rfl

/-- What a text begins with that is neither layout nor a lexeme. -/
theorem cases_of_scan_eq_error (h : scan text = .error fault) (hlayout : Layout.length text = 0) :
    (∃ body, text = '/' :: '*' :: body ∧ ¬Layout.closing <:+: body ∧
        fault = ⟨.unterminatedComment, 0, text.length⟩) ∨
      (∃ spelled rest l f, text = spelled ++ rest ∧ Literal.Longest rest spelled l ∧
        Literal.Judged l rest.head? (.error f) ∧
        fault = ⟨.literal f, f.offset spelled.length, spelled.length⟩) ∨
      ∃ c rest, text = c :: rest ∧ Stray c rest ∧ fault = ⟨.unexpectedCharacter c, 0, 0⟩ := by
  cases text with
  | nil => cases h
  | cons c rest =>
      simp only [scan, List.head?_cons] at h
      split at h
      · cases h
      · rename_i hword
        split at h
        · rename_i hdigit
          obtain ⟨spelled, rest', l, verdict, htext, hlongest, hjudged, hfault⟩ :=
            (ofLiteral_eq_iff hdigit rest).mp h
          cases verdict with
          | ok value => cases hfault
          | error f =>
              cases hfault
              exact .inr (.inl ⟨spelled, rest', l, f, htext, hlongest, hjudged, rfl⟩)
        · rename_i hdigit
          rcases ofMark_eq_error h with ⟨body, rfl, rfl, rfl⟩ | ⟨hmark, hstar, rfl⟩
          · exact .inl ⟨body, rfl, Layout.not_closing_of_length hlayout, rfl⟩
          · have hcomment : c = '/' → ∀ d ∈ rest.head?, d ≠ '/' ∧ d ≠ '*' := by
              rintro rfl d hd
              refine ⟨?_, ?_⟩
              · rintro rfl
                obtain ⟨later, rfl⟩ := List.head?_eq_some_iff.mp hd
                exact Layout.length_ne_zero_of_slashes later hlayout
              · rintro rfl
                exact hstar rfl hd
            exact .inr (.inr ⟨c, rest, rfl, ⟨Layout.not_isWhiteSpace_of_length hlayout, hcomment,
              hword, hdigit, hmark⟩, rfl⟩)

end Lexeme

namespace Cursor

variable {file source : String} {before : List Char} {c c' : Cursor}

/-- A call that fails stops behind what is at fault, or at it. -/
theorem exists_of_next_error {e : LexicalError} (h : c.next file = (.error (.failure e), c')) :
    ∃ start fault place, c.skip (Layout.length c.rest) = .ok start ∧
      Lexeme.scan start.rest = .error fault ∧ start.skip fault.offset = .ok place ∧
      place.skip (fault.length - fault.offset) = .ok c' ∧
      e = ⟨place.location file, fault.cause⟩ := by
  unfold next at h
  split at h
  · cases h
  · rename_i start hstart
    split at h
    · split at h <;> cases h
    · rename_i fault hscan
      split at h
      · cases h
      · rename_i place hplace
        split at h
        · cases h
        · rename_i stop hstop
          cases h
          exact ⟨start, fault, place, hstart, hscan, hplace, hstop, rfl⟩

theorem Stands.hasRoom (h : c.Stands before)
    (hlength : before.length + c.rest.length + 1 < UInt32.size) : c.HasRoom := by
  have hline : before.count '\n' ≤ before.length := List.count_le_length
  have hcolumn := length_lastLine_le before
  rw [HasRoom, h.1, h.2]
  omega

/-- Stopping on the way does not change where the cursor ends up. -/
theorem Stands.skip_twice {front rest : List Char} {place : Cursor} {offset : Nat}
    (h : c.Stands before) (hrest : c.rest = front ++ rest) (hoffset : offset ≤ front.length)
    (hplace : c.skip offset = .ok place) (hstop : place.skip (front.length - offset) = .ok c') :
    place.Stands (before ++ front.take offset) ∧ c'.Stands (before ++ front) ∧ c'.rest = rest := by
  have hlength : (front.take offset).length = offset := List.length_take_of_le hoffset
  have hsplit : c.rest = front.take offset ++ (front.drop offset ++ rest) := by
    rw [hrest, ← List.append_assoc, List.take_append_drop]
  have hplace' : place.Stands (before ++ front.take offset) :=
    h.skip hsplit (hlength.symm ▸ hplace)
  have hrest' : place.rest = front.drop offset ++ rest := by
    rw [rest_of_skip hplace, hrest, List.drop_append_of_le_length hoffset]
  have hstop' : place.skip (front.drop offset).length = .ok c' := by
    rw [List.length_drop]
    exact hstop
  refine ⟨hplace', ?_, ?_⟩
  · simpa using hplace'.skip hrest' hstop'
  · rw [rest_of_skip hstop', hrest', List.drop_left]

/-- What comes of a call, and where the cursor stands after it. -/
structure Moves (file : String) (before : List Char) (c : Cursor) (passed : List Char)
    (outcome : Except (Halt LexicalError) Token × Cursor) : Prop where
  text : c.rest = passed ++ outcome.2.rest
  stands : outcome.2.Stands (before ++ passed)
  call : Call file before c.rest passed outcome.1

theorem moves_of_ok {t : Token} (hc : c.Stands before) (h : c.next file = (.ok t, c')) :
    ∃ passed, Moves file before c passed (.ok t, c') := by
  by_cases hk : t.kind = .endOfFile
  · obtain ⟨htrailing, hrest, hstands, rfl⟩ := trailing_of_next hc h hk
    exact ⟨c.rest, by simp [hrest], hstands, .finish htrailing⟩
  · obtain ⟨p, htext, hlayout, hlexical, hstands, rfl⟩ := exists_piece_of_next hc h hk
    refine ⟨p.layout ++ p.lexeme, by simp [htext], by simpa using hstands, ?_⟩
    rw [htext]
    exact .token hlayout hlexical

theorem moves_of_error {e : LexicalError} (hc : c.Stands before)
    (h : c.next file = (.error (.failure e), c')) :
    ∃ passed, Moves file before c passed (.error (.failure e), c') := by
  obtain ⟨start, fault, place, hstart, hscan, hplace, hstop, rfl⟩ := exists_of_next_error h
  obtain ⟨layout, later, hsplits⟩ := Layout.exists_splits c.rest
  have htext := hsplits.text_eq
  rw [hsplits.length_eq] at hstart
  have hlater : start.rest = later := by
    rw [rest_of_skip hstart, htext, List.drop_left]
  have hstands : start.Stands (before ++ layout) := hc.skip htext hstart
  rw [hlater] at hscan
  have hlayout : Layout.Spelled layout := by
    refine hsplits.layout.resolve_right ?_
    rintro ⟨rfl, -⟩
    cases hscan
  rcases Lexeme.cases_of_scan_eq_error hscan hsplits.length_rest with
    ⟨body, rfl, hbody, rfl⟩ | ⟨spelled, rest, l, f, rfl, hlongest, hjudged, rfl⟩ |
      ⟨char, rest, rfl, hchar, rfl⟩
  · obtain ⟨hplace, hstop, hrest⟩ :=
      hstands.skip_twice (hlater.trans (List.append_nil _).symm) (Nat.zero_le _) hplace hstop
    refine ⟨layout ++ '/' :: '*' :: body, by simp [htext, hrest], by simpa using hstop, ?_⟩
    rw [htext, hplace.location, List.take_zero, List.append_nil]
    exact .comment hlayout hbody
  · have hoffset : f.offset spelled.length ≤ spelled.length := by
      cases f <;> simp [Literal.Fault.offset]
    obtain ⟨hplace, hstop, hrest⟩ := hstands.skip_twice hlater hoffset hplace hstop
    refine ⟨layout ++ spelled, by simp [htext, hrest], by simpa using hstop, ?_⟩
    rw [htext, hplace.location]
    by_cases hsuffix : ∃ char, f = .suffix char
    · obtain ⟨char, rfl⟩ := hsuffix
      obtain ⟨hnext, hformed, hchar⟩ := hjudged.suffix_inv
      obtain ⟨rest, rfl⟩ := List.head?_eq_some_iff.mp hnext
      rw [Literal.Fault.offset, List.take_length]
      exact .suffix hlayout hlongest hformed hchar
    · have hother : ∀ char, f ≠ .suffix char := fun char hf => hsuffix ⟨char, hf⟩
      have hzero : f.offset spelled.length = 0 := Literal.Fault.offset.eq_2 _ _ hother
      rw [hzero, List.take_zero, List.append_nil]
      exact .literal hlayout hlongest hjudged hother
  · obtain ⟨hplace, hstop, hrest⟩ :=
      hstands.skip_twice (hlater.trans (List.nil_append _).symm) (Nat.zero_le _) hplace hstop
    rw [List.append_nil] at hstop
    refine ⟨layout, by rw [htext, hrest], hstop, ?_⟩
    rw [htext, hplace.location, List.take_zero, List.append_nil]
    exact .unexpected hlayout hchar

theorem exists_moves (hc : c.Stands before)
    (hlength : before.length + c.rest.length + 1 < UInt32.size) (file : String) :
    ∃ passed, Moves file before c passed (c.next file) := by
  rcases hnext : c.next file with ⟨(e | breach) | t, c'⟩
  · exact moves_of_error hc hnext
  · have hne := next_ne_breach (hc.hasRoom hlength) file breach
    rw [hnext] at hne
    exact absurd rfl hne
  · exact moves_of_ok hc hnext

/-! ### Any number of calls -/

/-- The cursor after `n` calls, whatever came of them. -/
def after (file source : String) : Nat → Cursor
  | 0 => start source
  | n + 1 => ((after file source n).next file).2

/-- What the call after `n` others gives. -/
def answer (file source : String) (n : Nat) : Except (Halt LexicalError) Token :=
  ((after file source n).next file).1

/-- The characters of a text that the cursor has passed. -/
def behind (source : String) (c : Cursor) : List Char :=
  source.toList.take (source.length - c.rest.length)

theorem behind_eq (h : source.toList = before ++ c.rest) : c.behind source = before := by
  have hlength : source.length - c.rest.length = before.length := by
    rw [← String.length_toList, h, List.length_append]
    omega
  rw [behind, hlength, h, List.take_left]

/-- A cursor in a text, at the line and the column that belong to what it has passed. -/
structure Keeps (source : String) (c : Cursor) : Prop where
  text : source.toList = c.behind source ++ c.rest
  stands : c.Stands (c.behind source)

theorem Keeps.next (h : c.Keeps source) (hsource : source.length < 2 ^ 32 - 1) (file : String) :
    (c.next file).2.Keeps source ∧
      ∃ passed, (c.next file).2.behind source = c.behind source ++ passed ∧
        Call file (c.behind source) c.rest passed (c.next file).1 := by
  have hlength : (c.behind source).length + c.rest.length + 1 < UInt32.size := by
    rw [← List.length_append, ← h.text, String.length_toList, UInt32.size]
    omega
  obtain ⟨passed, hmoves⟩ := exists_moves h.stands hlength file
  have htext : source.toList = c.behind source ++ passed ++ (c.next file).2.rest := by
    rw [List.append_assoc, ← hmoves.text]
    exact h.text
  have hbehind := behind_eq htext
  refine ⟨⟨?_, ?_⟩, passed, hbehind, hmoves.call⟩
  · rw [hbehind]
    exact htext
  · rw [hbehind]
    exact hmoves.stands

theorem keeps_after (hsource : source.length < 2 ^ 32 - 1) (file : String) (n : Nat) :
    (after file source n).Keeps source := by
  induction n with
  | zero =>
      have hbehind : (start source).behind source = [] := behind_eq rfl
      exact ⟨by rw [after, hbehind]; rfl, by rw [after, hbehind]; exact .start source⟩
  | succ n ih => exact (ih.next hsource file).1

theorem behind_prefix {i j : Nat} (hsource : source.length < 2 ^ 32 - 1) (file : String)
    (hij : i ≤ j) :
    (after file source i).behind source <+: (after file source j).behind source := by
  induction j, hij using Nat.le_induction with
  | base => exact List.prefix_rfl
  | succ j _ ih =>
      obtain ⟨-, passed, hpassed, -⟩ := (keeps_after hsource file j).next hsource file
      exact ih.trans ⟨passed, hpassed.symm⟩

/-- A token begins behind layout and ends where the call does. -/
theorem span_of_call {text passed : List Char} {t : Token}
    (h : Call file before text passed (.ok t)) :
    ∃ layout lexeme, passed = layout ++ lexeme ∧ t.span.start = .after file (before ++ layout) ∧
      t.span.stop = .after file (before ++ passed) := by
  cases h with
  | @token layout lexeme _ _ _ _ =>
      exact ⟨layout, lexeme, rfl, rfl, by rw [List.append_assoc]⟩
  | finish => exact ⟨_, [], (List.append_nil _).symm, rfl, rfl⟩

theorem span_ordered {i j : Nat} {t u : Token} (hsource : source.length < 2 ^ 32 - 1)
    (hij : i < j) (ht : answer file source i = .ok t) (hu : answer file source j = .ok u) :
    t.span.start ≤ t.span.stop ∧ t.span.stop ≤ u.span.start := by
  -- Every place is after some first characters of the text, of which there are not too many.
  have hplaces : ∀ {k : Nat} {front more : List Char},
      front ++ more <+: (after file source k).behind source →
        Location.after file front ≤ .after file (front ++ more) := by
    intro k front more hprefix
    apply Location.after_le_after
    have hle := hprefix.length_le
    have hlength := congrArg List.length (keeps_after hsource file k).text
    rw [List.length_append, String.length_toList] at hlength
    rw [UInt32.size]
    omega
  obtain ⟨-, passed, hpassed, hcall⟩ := (keeps_after hsource file i).next hsource file
  obtain ⟨-, passed', hpassed', hcall'⟩ := (keeps_after hsource file j).next hsource file
  rw [← answer, ht] at hcall
  rw [← answer, hu] at hcall'
  obtain ⟨layout, lexeme, rfl, hstart, hstop⟩ := span_of_call hcall
  obtain ⟨layout', lexeme', rfl, hstart', -⟩ := span_of_call hcall'
  obtain ⟨between, hbetween⟩ := behind_prefix hsource file (Nat.succ_le_of_lt hij)
  rw [after, hpassed] at hbetween
  rw [hstart, hstop, hstart']
  constructor
  · rw [← List.append_assoc]
    apply hplaces (k := i + 1)
    rw [after, hpassed, List.append_assoc]
  · rw [← hbetween, List.append_assoc _ between]
    apply hplaces (k := j + 1)
    rw [after, hpassed', ← hbetween]
    exact ⟨lexeme', by simp⟩

/-- After any number of calls the line and the column of the cursor are those after the
characters that it has passed, of which each call adds some of the text. A token spans its
lexeme, no token begins before an earlier one ends, and an error is at the place of the
character that it is about. No place of the text is beyond counting. -/
theorem places_exact (file : String) {source : String} (h : source.length < 2 ^ 32 - 1) :
    (∀ n, source.toList = (after file source n).behind source ++ (after file source n).rest ∧
      (after file source n).line.toNat = ((after file source n).behind source).count '\n' + 1 ∧
      (after file source n).column.toNat =
        (((after file source n).behind source).reverse.takeWhile (· ≠ '\n')).length + 1 ∧
      ∃ passed, (after file source (n + 1)).behind source =
          (after file source n).behind source ++ passed ∧
        Call file ((after file source n).behind source) (after file source n).rest passed
          (answer file source n)) ∧
    (∀ i j t u, i < j → answer file source i = .ok t → answer file source j = .ok u →
      t.span.start ≤ t.span.stop ∧ t.span.stop ≤ u.span.start) ∧
    ∀ before, before <+: source.toList →
      (Location.after file before).line.toNat = before.count '\n' + 1 ∧
        (Location.after file before).column.toNat =
          (before.reverse.takeWhile (· ≠ '\n')).length + 1 := by
  refine ⟨fun n => ?_, fun i j t u => span_ordered h, fun before hbefore => ?_⟩
  · have hkeeps := keeps_after h file n
    exact ⟨hkeeps.text, hkeeps.stands.1, hkeeps.stands.2, (hkeeps.next h file).2⟩
  · apply Location.toNat_after
    have hle := hbefore.length_le
    rw [String.length_toList] at hle
    rw [UInt32.size]
    omega

/-- A line feed inside a comment counts, and so do the characters of a literal that was
refused. -/
theorem places_exact_continued :
    "x/*\n*/08 é".length < 2 ^ 32 - 1 ∧
      answer "a.c" "x/*\n*/08 é" 2 = .error (.failure ⟨⟨"a.c", 2, 6⟩, .unexpectedCharacter 'é'⟩) ∧
      ∃ passed, Call "a.c" "x/*\n*/08".toList [' ', 'é'] passed
        (.error (.failure ⟨⟨"a.c", 2, 6⟩, .unexpectedCharacter 'é'⟩)) := by
  have hlength : "x/*\n*/08 é".length < 2 ^ 32 - 1 := by decide
  have hanswer : answer "a.c" "x/*\n*/08 é" 2 =
      .error (.failure ⟨⟨"a.c", 2, 6⟩, .unexpectedCharacter 'é'⟩) := by cbv
  have hbehind : (after "a.c" "x/*\n*/08 é" 2).behind "x/*\n*/08 é" = "x/*\n*/08".toList := by cbv
  have hrest : (after "a.c" "x/*\n*/08 é" 2).rest = [' ', 'é'] := by cbv
  obtain ⟨-, -, -, passed, -, hcall⟩ := (places_exact "a.c" hlength).1 2
  rw [hbehind, hrest, hanswer] at hcall
  exact ⟨hlength, hanswer, passed, hcall⟩

end Cursor

end MicroC
