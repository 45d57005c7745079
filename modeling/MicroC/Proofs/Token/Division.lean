import MicroC.Proofs.Token.Lexeme
import MicroC.Proofs.Token.Room

/-!
How a text is divided into tokens: layout and a lexeme, again and again, and
layout up to the end. A text can be divided in one way at most. If it can, each
lexeme is a token, and its span runs from the place where the lexeme begins to
the place where it ends.
-/

namespace MicroC

open Token (Kind)

structure Piece where
  layout : List Char
  lexeme : List Char
  kind : Kind
  deriving DecidableEq

/-- The pieces that a text is made of, and the layout after the last one. -/
@[mk_iff]
inductive Divides : List Char → List Piece → List Char → Prop
  | finish {last : List Char} (h : Layout.Trailing last) : Divides last [] last
  | piece {p : Piece} {rest : List Char} {pieces : List Piece} {last : List Char}
      (hlayout : Layout.Spelled p.layout) (hlexeme : Lexical rest p.lexeme p.kind)
      (hrest : Divides rest pieces last) :
      Divides (p.layout ++ (p.lexeme ++ rest)) (p :: pieces) last

/-- The place after the characters `before`. -/
def Location.after (file : String) (before : List Char) : Location :=
  ⟨file, .ofNat (before.count '\n' + 1),
    .ofNat ((before.reverse.takeWhile (· ≠ '\n')).length + 1)⟩

/-- The tokens of the pieces that follow the characters `before`. -/
def Piece.tokens (file : String) (last : List Char) : List Char → List Piece → List Token
  | before, [] => [⟨.endOfFile, .point (.after file (before ++ last))⟩]
  | before, p :: pieces =>
      ⟨p.kind, .after file (before ++ p.layout), .after file (before ++ p.layout ++ p.lexeme)⟩ ::
        tokens file last (before ++ p.layout ++ p.lexeme) pieces

/-! ### One way to divide a text -/

namespace Divides

theorem spells {text last : List Char} {pieces : List Piece} (h : Divides text pieces last) :
    Spells text (pieces.map (·.kind) ++ [.endOfFile]) := by
  induction h with
  | finish h => exact .finish (by rw [h.length_eq, List.drop_length])
  | @piece p rest pieces last hlayout hlexeme _ ih =>
      have hlength : Layout.length (p.layout ++ (p.lexeme ++ rest)) = p.layout.length := by
        rw [hlayout.length_append, hlexeme.length_layout, Nat.add_zero]
      have hscan : Lexeme.scan ((p.layout ++ (p.lexeme ++ rest)).drop
          (Layout.length (p.layout ++ (p.lexeme ++ rest)))) = .ok ⟨p.kind, p.lexeme.length⟩ := by
        rw [hlength, List.drop_left, hlexeme.scan_eq]
      refine .token hscan hlexeme.ne_endOfFile ?_
      rw [hlength, ← List.drop_drop, List.drop_left, List.drop_left]
      exact ih

/-- Both pieces are as long as the layout and the lexeme that are read. -/
theorem piece_unique {p p' : Piece} {rest rest' : List Char} (hlayout : Layout.Spelled p.layout)
    (hlexeme : Lexical rest p.lexeme p.kind) (hlayout' : Layout.Spelled p'.layout)
    (hlexeme' : Lexical rest' p'.lexeme p'.kind)
    (h : p.layout ++ (p.lexeme ++ rest) = p'.layout ++ (p'.lexeme ++ rest')) :
    p = p' ∧ rest = rest' := by
  obtain ⟨layout, lexeme, kind⟩ := p
  obtain ⟨layout', lexeme', kind'⟩ := p'
  have hlength : layout.length = layout'.length := by
    have := congrArg Layout.length h
    rwa [hlayout.length_append, hlayout'.length_append, hlexeme.length_layout,
      hlexeme'.length_layout] at this
  obtain ⟨rfl, htext⟩ := List.append_inj h hlength
  have hscan := hlexeme.scan_eq
  rw [htext, hlexeme'.scan_eq] at hscan
  obtain ⟨rfl, hsame⟩ : kind' = kind ∧ lexeme'.length = lexeme.length := by simpa using hscan
  obtain ⟨rfl, rfl⟩ := List.append_inj htext hsame.symm
  exact ⟨rfl, rfl⟩

/-- Layout up to the end leaves nothing for a lexeme. -/
theorem not_trailing {p : Piece} {rest : List Char} (hlayout : Layout.Spelled p.layout)
    (hlexeme : Lexical rest p.lexeme p.kind) :
    ¬Layout.Trailing (p.layout ++ (p.lexeme ++ rest)) := by
  intro h
  have hlength := h.length_eq
  rw [hlayout.length_append, hlexeme.length_layout, List.length_append] at hlength
  exact hlexeme.append_ne_nil (List.eq_nil_of_length_eq_zero (by omega))

theorem unique {text last last' : List Char} {pieces pieces' : List Piece}
    (h : Divides text pieces last) (h' : Divides text pieces' last') :
    pieces = pieces' ∧ last = last' := by
  induction h generalizing pieces' with
  | finish h =>
      rcases (divides_iff _ _ _).mp h' with
        ⟨-, rfl, hlast⟩ | ⟨p, rest, _, hlayout, hlexeme, -, htext, -⟩
      · exact ⟨rfl, hlast.symm⟩
      · exact absurd (htext ▸ h) (not_trailing hlayout hlexeme)
  | piece hlayout hlexeme _ ih =>
      rcases (divides_iff _ _ _).mp h' with
        ⟨h', -, htext⟩ | ⟨p, rest, later, hlayout', hlexeme', hlater, htext, rfl⟩
      · exact absurd (htext ▸ h') (not_trailing hlayout hlexeme)
      · obtain ⟨rfl, rfl⟩ := piece_unique hlayout hlexeme hlayout' hlexeme' htext
        obtain ⟨rfl, rfl⟩ := ih hlater
        exact ⟨rfl, rfl⟩

end Divides

/-! ### Places -/

namespace Cursor

/-- A cursor whose line and column are those after the characters `before`. -/
def Stands (before : List Char) (c : Cursor) : Prop :=
  c.line.toNat = before.count '\n' + 1 ∧
    c.column.toNat = (before.reverse.takeWhile (· ≠ '\n')).length + 1

namespace Stands

variable {file : String} {before front rest : List Char} {c c' : Cursor}

theorem start (source : String) : (Cursor.start source).Stands [] := ⟨rfl, rfl⟩

theorem location (h : c.Stands before) : c.location file = .after file before := by
  rw [Cursor.location, Location.after, ← h.1, ← h.2, UInt32.ofNat_toNat, UInt32.ofNat_toNat]

theorem advance {char : Char} (h : c.Stands before) (hrest : c.rest = char :: rest)
    (hadvance : c.advance = .ok c') : c'.Stands (before ++ [char]) := by
  have hone : (1 : UInt32).toNat = 1 := rfl
  simp only [Cursor.advance, hrest] at hadvance
  split at hadvance
  · rename_i hchar
    cases hadd : Checked.add c.line 1 with
    | error breach => simp [hadd, Except.map] at hadvance
    | ok line =>
        simp only [hadd, Except.map, Except.ok.injEq] at hadvance
        subst hadvance hchar
        refine ⟨?_, by simp [hone]⟩
        simp [Checked.add_eq_ok_iff.mp hadd, h.1, hone]
  · rename_i hchar
    cases hadd : Checked.add c.column 1 with
    | error breach => simp [hadd, Except.map] at hadvance
    | ok column =>
        simp only [hadd, Except.map, Except.ok.injEq] at hadvance
        subst hadvance
        refine ⟨?_, ?_⟩
        · simp [h.1, hchar]
        · simp [Checked.add_eq_ok_iff.mp hadd, h.2, hone, hchar]

theorem skip (h : c.Stands before) (hrest : c.rest = front ++ rest)
    (hskip : c.skip front.length = .ok c') : c'.Stands (before ++ front) := by
  induction front generalizing before c with
  | nil =>
      cases hskip
      simpa using h
  | cons char front ih =>
      rw [List.length_cons, Cursor.skip] at hskip
      cases hadvance : c.advance with
      | error breach => simp [hadvance, Except.bind] at hskip
      | ok middle =>
          rw [hadvance] at hskip
          have hmiddle : middle.rest = front ++ rest := by
            rw [rest_of_advance hadvance, hrest]
            rfl
          simpa using ih (h.advance hrest hadvance) hmiddle hskip

end Stands

variable {file : String} {before : List Char} {c c' : Cursor} {t : Token}

/-- A token that is read is the next piece of the text. -/
theorem exists_piece_of_next (hc : c.Stands before) (h : c.next file = (.ok t, c'))
    (hk : t.kind ≠ .endOfFile) :
    ∃ p : Piece, c.rest = p.layout ++ (p.lexeme ++ c'.rest) ∧ Layout.Spelled p.layout ∧
      Lexical c'.rest p.lexeme p.kind ∧ c'.Stands (before ++ p.layout ++ p.lexeme) ∧
      t = ⟨p.kind, .after file (before ++ p.layout),
        .after file (before ++ p.layout ++ p.lexeme)⟩ := by
  obtain ⟨start, l, hstart, hscan, hstop, rfl⟩ := exists_of_next h
  obtain ⟨layout, later, hsplits⟩ := Layout.exists_splits c.rest
  rw [hsplits.length_eq] at hstart
  have hlater : start.rest = later := by
    rw [rest_of_skip hstart, hsplits.text_eq, List.drop_left]
  obtain ⟨lexeme, rest, htext, hlength, hlexical⟩ := Lexeme.exists_lexical hscan hk
  rw [← hlength] at hstop
  have hrest : c'.rest = rest := by
    rw [rest_of_skip hstop, htext, List.drop_left]
  have hlayout : Layout.Spelled layout := by
    refine hsplits.layout.resolve_right fun hend => hlexical.append_ne_nil ?_
    rw [← htext, hlater, hend.1]
  have hstands : start.Stands (before ++ layout) := hc.skip hsplits.text_eq hstart
  have hstands' : c'.Stands (before ++ layout ++ lexeme) := hstands.skip htext hstop
  refine ⟨⟨layout, lexeme, l.kind⟩, ?_, hlayout, hrest ▸ hlexical, hstands', ?_⟩
  · rw [hrest, ← htext, hlater]
    exact hsplits.text_eq
  · rw [hstands.location, hstands'.location]

/-- Before the end of the text stands layout alone. -/
theorem trailing_of_next (hc : c.Stands before) (h : c.next file = (.ok t, c'))
    (hk : t.kind = .endOfFile) :
    Layout.Trailing c.rest ∧ c'.rest = [] ∧ c'.Stands (before ++ c.rest) ∧
      t = ⟨.endOfFile, .point (.after file (before ++ c.rest))⟩ := by
  obtain ⟨start, l, hstart, hscan, hstop, rfl⟩ := exists_of_next h
  obtain ⟨layout, later, hsplits⟩ := Layout.exists_splits c.rest
  rw [hsplits.length_eq] at hstart
  have hlater : start.rest = later := by
    rw [rest_of_skip hstart, hsplits.text_eq, List.drop_left]
  have hnil : start.rest = [] := Lexeme.eq_nil_of_scan hscan hk
  obtain rfl : l = ⟨.endOfFile, 0⟩ := by
    rw [hnil] at hscan
    cases hscan
    rfl
  obtain rfl : start = c' := by
    cases hstop
    rfl
  have htext : c.rest = layout := by
    rw [hsplits.text_eq, ← hlater, hnil, List.append_nil]
  have hstands : start.Stands (before ++ layout) := hc.skip hsplits.text_eq hstart
  rw [htext]
  refine ⟨?_, hnil, hstands, ?_⟩
  · rcases hsplits.layout with hspelled | ⟨-, htrailing⟩
    · exact .closed hspelled
    · exact htrailing
  · rw [hstands.location]
    rfl

/-- The tokens of a text are those of its pieces. -/
theorem exists_divides {tokens : List Token} (hc : c.Stands before)
    (h : c.tokens file = .ok tokens) :
    ∃ pieces last, Divides c.rest pieces last ∧ tokens = Piece.tokens file last before pieces := by
  fun_induction Cursor.tokens file c generalizing tokens before with
  | case1 => cases h
  | case2 c token c' hnext hk =>
      cases h
      obtain ⟨htrailing, -, -, htoken⟩ := trailing_of_next hc hnext hk
      refine ⟨[], c.rest, .finish htrailing, ?_⟩
      rw [htoken, Piece.tokens]
  | case3 c token c' hnext hk _ ih =>
      obtain ⟨p, htext, hlayout, hlexical, hc', htoken⟩ := exists_piece_of_next hc hnext hk
      cases hlater : c'.tokens file with
      | error stop => simp [hlater, Except.map] at h
      | ok later =>
          simp only [hlater, Except.map, Except.ok.injEq] at h
          obtain ⟨pieces, last, hdivides, rfl⟩ := ih hc' hlater
          refine ⟨p :: pieces, last, ?_, ?_⟩
          · rw [htext]
            exact .piece hlayout hlexical hdivides
          · rw [← h, htoken, Piece.tokens]

end Cursor

/-- A text is cut into tokens if it can be divided into layout and lexemes. It
can be divided in one way then, and the tokens are its lexemes in their places
and the end of the text. -/
theorem tokenize_iff_divides (file : String) {source : String} (h : source.length < 2 ^ 32 - 1) :
    (∀ tokens, tokenize file source = .ok tokens ↔
      ∃ pieces last, Divides source.toList pieces last ∧
        tokens = Piece.tokens file last [] pieces) ∧
    ∀ pieces last pieces' last', Divides source.toList pieces last →
      Divides source.toList pieces' last' → pieces = pieces' ∧ last = last' := by
  refine ⟨fun tokens => ⟨fun htokens => ?_, ?_⟩, fun _ _ _ _ => Divides.unique⟩
  · exact Cursor.exists_divides (.start source) htokens
  · rintro ⟨pieces, last, hdivides, rfl⟩
    -- Some tokens come out, and they are those of the only division.
    obtain ⟨tokens, htokens, -⟩ := (exists_tokenize_iff file h).mpr hdivides.spells
    obtain ⟨pieces', last', hdivides', rfl⟩ := Cursor.exists_divides (.start source) htokens
    obtain ⟨rfl, rfl⟩ := hdivides.unique hdivides'
    exact htokens

/-- A keyword that is only the beginning of a word makes a name, and stars may
stand next to what closes a comment. -/
theorem tokenize_iff_divides_comments :
    "int/***/ints//\n 0x1F".length < 2 ^ 32 - 1 ∧
      tokenize "a.c" "int/***/ints//\n 0x1F" = .ok
        [⟨.keywordInt, ⟨"a.c", 1, 1⟩, ⟨"a.c", 1, 4⟩⟩,
          ⟨.identifier "ints", ⟨"a.c", 1, 9⟩, ⟨"a.c", 1, 13⟩⟩,
          ⟨.literal 31, ⟨"a.c", 2, 2⟩, ⟨"a.c", 2, 6⟩⟩,
          ⟨.endOfFile, ⟨"a.c", 2, 6⟩, ⟨"a.c", 2, 6⟩⟩] := by
  have hlength : "int/***/ints//\n 0x1F".length < 2 ^ 32 - 1 := by decide
  have hline : Layout.Spelled ['/', '/', '\n', ' '] :=
    .lineComment List.not_mem_nil (.blank (by decide) .nil)
  have hnumeral : Numeral ['0', 'x', '1', 'F'] 31 :=
    .hexadecimal (.inl rfl) (by decide) (Radix.writes_iff.mpr ⟨by simp; decide, rfl⟩)
  have hliteral := Divides.piece (p := ⟨_, _, _⟩) hline
    (.literal hnumeral (by decide) (by simp)) (.finish (.closed .nil))
  have hblock : Layout.Spelled ('/' :: '*' :: (['*'] ++ Layout.closing ++ [])) :=
    .blockComment (by decide) .nil
  have hname := Divides.piece (p := ⟨_, ['i', 'n', 't', 's'], .identifier "ints"⟩) hblock
    (.word (by decide) (.name (by decide)) (by simp; decide)) hliteral
  have hint := Divides.piece (p := ⟨[], ['i', 'n', 't'], .keywordInt⟩) .nil
    (.word (by decide) .int (by simp; decide)) hname
  exact ⟨hlength, ((tokenize_iff_divides "a.c" hlength).1 _).mpr ⟨_, _, hint, by cbv⟩⟩

end MicroC
