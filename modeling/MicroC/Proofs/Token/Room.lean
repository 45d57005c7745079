import MicroC.Proofs.Token.Spelling
import MicroC.Token.Lexer

/-!
A text that is short enough for its lines and columns to be counted is cut
into tokens exactly as it is spelled. The cursor has room as long as neither
count can overflow on the text that is left; no step uses that room up.
-/

namespace MicroC

open Token (Kind)

theorem Lexeme.eq_nil_of_scan {text : List Char} {l : Lexeme} (h : scan text = .ok l)
    (hk : l.kind = .endOfFile) : text = [] := by
  cases text with
  | nil => rfl
  | cons c rest =>
      simp only [scan, List.head?_cons] at h
      split at h
      · cases h
        simp only [ofWord, Kind.ofWord] at hk
        split at hk <;> cases hk
      · split at h
        · simp only [ofLiteral] at h
          split at h <;> cases h
          cases hk
        · unfold ofMark at h
          split at h <;> cases h <;> contradiction

theorem Layout.length_replicate_blank (n : Nat) : Layout.length (List.replicate n ' ') = n := by
  induction n with
  | zero => rfl
  | succ n ih => rw [List.replicate_succ, length_cons_of_isWhiteSpace (by decide), ih]

namespace Cursor

/-- Neither the line nor the column can overflow on the text that is left. -/
def HasRoom (c : Cursor) : Prop :=
  c.line.toNat + c.rest.length < UInt32.size ∧ c.column.toNat + c.rest.length < UInt32.size

theorem hasRoom_start {source : String} (h : source.length < 2 ^ 32 - 1) :
    (start source).HasRoom := by
  have hone : (1 : UInt32).toNat = 1 := rfl
  simp only [HasRoom, start, String.length_toList, hone, UInt32.size]
  omega

theorem advance_of_hasRoom {c : Cursor} (h : c.HasRoom) :
    ∃ c', c.advance = .ok c' ∧ c'.HasRoom := by
  obtain ⟨rest, line, column⟩ := c
  obtain ⟨hline, hcolumn⟩ := h
  have hone : (1 : UInt32).toNat = 1 := rfl
  cases rest with
  | nil => exact ⟨_, rfl, hline, hcolumn⟩
  | cons char rest =>
      simp only [List.length_cons] at hline hcolumn
      by_cases hchar : char = '\n'
      · have hadd : Checked.add line 1 = .ok (line + 1) := by
          rw [Checked.add, if_pos (by omega)]
        have hnat := Checked.add_eq_ok_iff.mp hadd
        refine ⟨⟨rest, line + 1, 1⟩, ?_, ?_⟩
        · simp only [advance, if_pos hchar, hadd]
          rfl
        · simp only [HasRoom, hnat, hone]
          omega
      · have hadd : Checked.add column 1 = .ok (column + 1) := by
          rw [Checked.add, if_pos (by omega)]
        have hnat := Checked.add_eq_ok_iff.mp hadd
        refine ⟨⟨rest, line, column + 1⟩, ?_, ?_⟩
        · simp only [advance, if_neg hchar, hadd]
          rfl
        · simp only [HasRoom, hnat, hone]
          omega

theorem skip_of_hasRoom (count : Nat) {c : Cursor} (h : c.HasRoom) :
    ∃ c', c.skip count = .ok c' ∧ c'.HasRoom := by
  induction count generalizing c with
  | zero => exact ⟨c, rfl, h⟩
  | succ count ih =>
      obtain ⟨middle, hadvance, hmiddle⟩ := advance_of_hasRoom h
      obtain ⟨c', hskip, hc'⟩ := ih hmiddle
      refine ⟨c', ?_, hc'⟩
      rw [skip, hadvance]
      exact hskip

/-- Columns cannot be counted on a line that is too long. -/
theorem exists_breach_skip (count : Nat) {c : Cursor} (hcount : count ≤ c.rest.length)
    (hline : '\n' ∉ c.rest) (h : UInt32.size ≤ c.column.toNat + count) :
    ∃ breach, c.skip count = .error breach := by
  induction count generalizing c with
  | zero => exact absurd c.column.toNat_lt_size (Nat.not_lt_of_le h)
  | succ count ih =>
      obtain ⟨rest, line, column⟩ := c
      cases rest with
      | nil => cases hcount
      | cons char rest =>
          rw [List.mem_cons, not_or] at hline
          have hadvance : advance ⟨char :: rest, line, column⟩ =
              (Checked.add column 1).map fun column => ⟨rest, line, column⟩ := by
            rw [advance]
            exact if_neg (Ne.symm hline.1)
          cases hadd : Checked.add column 1 with
          | error breach => exact ⟨breach, by rw [skip, hadvance, hadd]; rfl⟩
          | ok next =>
              have hnext : next.toNat = column.toNat + 1 := Checked.add_eq_ok_iff.mp hadd
              have hnear : UInt32.size ≤ next.toNat + count := by
                simp only at h
                omega
              obtain ⟨breach, hbreach⟩ := ih (c := ⟨rest, line, next⟩)
                (Nat.le_of_succ_le_succ hcount) hline.2 hnear
              exact ⟨breach, by rw [skip, hadvance, hadd]; exact hbreach⟩

theorem next_of_scan (file : String) {c : Cursor} {l : Lexeme} (hc : c.HasRoom)
    (hscan : Lexeme.scan (c.rest.drop (Layout.length c.rest)) = .ok l) :
    ∃ span c', c.next file = (.ok ⟨l.kind, span⟩, c') ∧ c'.HasRoom ∧
      c'.rest = c.rest.drop (Layout.length c.rest + l.length) := by
  obtain ⟨start, hstart, hroom⟩ := skip_of_hasRoom (Layout.length c.rest) hc
  obtain ⟨stop, hstop, hroom'⟩ := skip_of_hasRoom l.length hroom
  have hrest := rest_of_skip hstart
  refine ⟨⟨start.location file, stop.location file⟩, stop, ?_, hroom', ?_⟩
  · rw [next, hstart]
    simp only [hrest, hscan, hstop]
  · rw [rest_of_skip hstop, hrest, List.drop_drop]

/-- A token is read from where the layout ends to where its lexeme does. -/
theorem exists_of_next {file : String} {c c' : Cursor} {t : Token}
    (h : c.next file = (.ok t, c')) :
    ∃ start l, c.skip (Layout.length c.rest) = .ok start ∧ Lexeme.scan start.rest = .ok l ∧
      start.skip l.length = .ok c' ∧ t = ⟨l.kind, start.location file, c'.location file⟩ := by
  unfold next at h
  split at h
  · cases h
  · rename_i start hstart
    split at h
    · rename_i l hscan
      split at h
      · cases h
      · rename_i stop hstop
        cases h
        exact ⟨start, l, hstart, hscan, hstop, rfl⟩
    · split at h
      · cases h
      · split at h <;> cases h

theorem scan_of_next {file : String} {c c' : Cursor} {t : Token}
    (h : c.next file = (.ok t, c')) :
    ∃ l, Lexeme.scan (c.rest.drop (Layout.length c.rest)) = .ok l ∧ t.kind = l.kind ∧
      c'.rest = c.rest.drop (Layout.length c.rest + l.length) := by
  obtain ⟨start, l, hstart, hscan, hstop, rfl⟩ := exists_of_next h
  have hrest := rest_of_skip hstart
  refine ⟨l, hrest ▸ hscan, rfl, ?_⟩
  rw [rest_of_skip hstop, hrest, List.drop_drop]

theorem spells_of_tokens {file : String} {c : Cursor} {tokens : List Token}
    (h : c.tokens file = .ok tokens) : Spells c.rest (tokens.map (·.kind)) := by
  fun_induction Cursor.tokens file c generalizing tokens with
  | case1 => cases h
  | case2 c token c' hnext hk =>
      cases h
      obtain ⟨l, hscan, hkind, -⟩ := scan_of_next hnext
      rw [List.map_singleton, hk]
      exact .finish (Lexeme.eq_nil_of_scan hscan (hkind ▸ hk))
  | case3 c token c' hnext hk _ ih =>
      obtain ⟨l, hscan, hkind, hrest⟩ := scan_of_next hnext
      cases hlater : c'.tokens file with
      | error stop => simp [hlater, Except.map] at h
      | ok later =>
          simp only [hlater, Except.map, Except.ok.injEq] at h
          subst h
          rw [List.map_cons, hkind]
          refine .token hscan (hkind ▸ hk) ?_
          rw [← hrest]
          exact ih hlater

theorem tokens_of_spells {file : String} {c : Cursor} {kinds : List Kind} (hc : c.HasRoom)
    (h : Spells c.rest kinds) :
    ∃ tokens, c.tokens file = .ok tokens ∧ tokens.map (·.kind) = kinds := by
  generalize htext : c.rest = text at h
  induction h generalizing c with
  | finish hend =>
      subst htext
      have hscan : Lexeme.scan (c.rest.drop (Layout.length c.rest)) = .ok ⟨.endOfFile, 0⟩ := by
        rw [hend]
        rfl
      obtain ⟨span, c', hnext, -, -⟩ := next_of_scan file hc hscan
      refine ⟨[⟨.endOfFile, span⟩], ?_, rfl⟩
      rw [Cursor.tokens]
      split
      · simp_all
      · rename_i heq
        rw [hnext] at heq
        cases heq
        rfl
  | token hscan hkind hrest ih =>
      subst htext
      obtain ⟨span, c', hnext, hroom, hrest'⟩ := next_of_scan file hc hscan
      obtain ⟨later, hlater, hkinds⟩ := ih hroom hrest'
      refine ⟨⟨_, span⟩ :: later, ?_, by rw [List.map_cons, hkinds]⟩
      rw [Cursor.tokens]
      split
      · simp_all
      · rename_i heq
        rw [hnext] at heq
        cases heq
        rw [dif_neg hkind, hlater]
        rfl

theorem hasRoom_of_skip {count : Nat} {c c' : Cursor} (hc : c.HasRoom)
    (h : c.skip count = .ok c') : c'.HasRoom := by
  obtain ⟨stop, hstop, hroom⟩ := skip_of_hasRoom count hc
  rw [hstop] at h
  cases h
  exact hroom

theorem next_ne_breach {c : Cursor} (hc : c.HasRoom) (file : String) (breach : Breach) :
    (c.next file).1 ≠ .error (.breach breach) := by
  obtain ⟨start, hstart, hroom⟩ := skip_of_hasRoom (Layout.length c.rest) hc
  rw [next, hstart]
  cases hscan : Lexeme.scan start.rest with
  | ok l =>
      obtain ⟨stop, hstop, -⟩ := skip_of_hasRoom l.length hroom
      simp [hscan, hstop]
  | error fault =>
      obtain ⟨place, hplace, hroom'⟩ := skip_of_hasRoom fault.offset hroom
      obtain ⟨stop, hstop, -⟩ := skip_of_hasRoom (fault.length - fault.offset) hroom'
      simp [hscan, hplace, hstop]

theorem tokens_ne_breach {c : Cursor} (hc : c.HasRoom) (file : String) (breach : Breach) :
    c.tokens file ≠ .error (.breach breach) := by
  fun_induction Cursor.tokens file c with
  | case1 c stop c' hnext =>
      have hne := next_ne_breach hc file breach
      rw [hnext] at hne
      simpa using hne
  | case2 => exact nofun
  | case3 c token c' hnext hk _ ih =>
      obtain ⟨start, l, hstart, -, hstop, -⟩ := exists_of_next hnext
      have hlater := ih (hasRoom_of_skip (hasRoom_of_skip hc hstart) hstop)
      cases hstop : c'.tokens file with
      | ok later => exact nofun
      | error stop =>
          rw [hstop] at hlater
          simpa [Except.map] using hlater

end Cursor

/-- A text that is short enough is cut into exactly the tokens that it spells. -/
theorem exists_tokenize_iff (file : String) {source : String} {kinds : List Kind}
    (h : source.length < 2 ^ 32 - 1) :
    (∃ tokens, tokenize file source = .ok tokens ∧ tokens.map (·.kind) = kinds) ↔
      Spells source.toList kinds := by
  constructor
  · rintro ⟨tokens, htokens, rfl⟩
    exact Cursor.spells_of_tokens htokens
  · exact Cursor.tokens_of_spells (Cursor.hasRoom_start h)

end MicroC
