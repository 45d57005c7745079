import MicroC.Proofs.Token.Division

/-!
The layout between lexemes can be exchanged. A lexeme goes on only over characters that no
layout and no mark begins with, so it ends where it did before whatever layout stands behind
it. It may stand right before the next lexeme if one of the two is a mark.
-/

namespace MicroC

open Token (Kind)
open Unicode (isWhiteSpace isAlphanumeric whiteSpace alphanumericAbove)

/-- Words and literals. -/
def Token.Kind.isWordOrLiteral : Kind → Bool
  | .literal _ | .identifier _ | .keywordInt | .keywordReturn | .keywordVoid => true
  | _ => false

namespace Piece

/-- The text of the pieces and of the layout after them. -/
def join (pieces : List Piece) (last : List Char) : List Char :=
  pieces.flatMap (fun p => p.layout ++ p.lexeme) ++ last

theorem join_cons (p : Piece) (pieces : List Piece) (last : List Char) :
    join (p :: pieces) last = p.layout ++ (p.lexeme ++ join pieces last) := by
  simp [join]

/-- The same lexemes behind other layout, which is left out only where a mark stands on one
side of it, or at the beginning. -/
structure Relaid (pieces pieces' : List Piece) : Prop where
  lexemes : List.Forall₂ (fun p p' => p'.lexeme = p.lexeme ∧ p'.kind = p.kind) pieces pieces'
  layout : ∀ p ∈ pieces', Layout.Spelled p.layout
  gaps : pieces'.IsChain fun p q =>
    p.kind.isWordOrLiteral → q.kind.isWordOrLiteral → q.layout ≠ []

theorem Relaid.map_kind {pieces pieces' : List Piece} (h : Relaid pieces pieces') :
    pieces'.map (·.kind) = pieces.map (·.kind) := by
  obtain ⟨hlexemes, -, -⟩ := h
  induction hlexemes with
  | nil => rfl
  | cons hpq _ ih => rw [List.map_cons, List.map_cons, hpq.2, ih]

theorem map_kind_tokens (file : String) (last before : List Char) (pieces : List Piece) :
    (tokens file last before pieces).map (·.kind) = pieces.map (·.kind) ++ [.endOfFile] := by
  induction pieces generalizing before with
  | nil => rfl
  | cons p pieces ih => rw [tokens, List.map_cons, ih, List.map_cons, List.cons_append]

end Piece

/-! ### Characters that end a lexeme -/

theorem Unicode.not_isAlphanumeric_of_isWhiteSpace {c : Char} (h : isWhiteSpace c) :
    ¬isAlphanumeric c := by
  have hdisjoint : ∀ blanks ∈ whiteSpace, ∀ letters ∈ alphanumericAbove,
      blanks.2 < letters.1 ∨ letters.2 < blanks.1 := by decide +kernel
  intro hc
  rw [isAlphanumeric] at hc
  split at hc
  · exact Lexeme.not_isWhiteSpace_of_isWordPart (by simp [Lexeme.isWordPart, hc]) h
  · simp only [isWhiteSpace, Unicode.Ranges.contains, List.any_eq_true, Bool.and_eq_true,
      decide_eq_true_eq] at h hc
    obtain ⟨blanks, hblanks, hfirst, hlast⟩ := h
    obtain ⟨letters, hletters, hfirst', hlast'⟩ := hc
    have := hdisjoint blanks hblanks letters hletters
    omega

namespace Literal

theorem isSuffix_of_isWordPart {c : Char} (h : Lexeme.isWordPart c) : isSuffix c := by
  simp only [Lexeme.isWordPart, Bool.or_eq_true] at h
  rcases h with hc | hc
  · have hlt : c.toNat < 0x80 := by
      simp only [Char.isAlphanum, Char.isAlpha, Char.isUpper, Char.isLower, Char.isDigit,
        Bool.or_eq_true, Bool.and_eq_true, decide_eq_true_eq, UInt32.le_iff_toNat_le,
        ge_iff_le] at hc
      simp at hc
      omega
    simp [isSuffix, isAlphanumeric, hlt, hc]
  · simp [isSuffix, hc]

theorem not_isSuffix_of_isWhiteSpace {c : Char} (h : isWhiteSpace c) : ¬isSuffix c := by
  simp only [isSuffix, Bool.or_eq_true, beq_iff_eq, not_or]
  refine ⟨Unicode.not_isAlphanumeric_of_isWhiteSpace h, ?_⟩
  rintro rfl
  exact absurd h (by decide)

end Literal

theorem Marks.not_isSuffix {c : Char} {kind : Kind} (h : Marks c kind) :
    ¬Literal.isSuffix c := by
  cases h <;> decide

namespace Layout

variable {text : List Char}

theorem Spelled.not_isSuffix (h : Spelled text) : ∀ c ∈ text.head?, ¬Literal.isSuffix c := by
  cases h with
  | nil => simp
  | blank hc =>
      rintro c ⟨⟩
      exact Literal.not_isSuffix_of_isWhiteSpace hc
  | lineComment | blockComment =>
      rintro c ⟨⟩
      decide

theorem Trailing.not_isSuffix (h : Trailing text) : ∀ c ∈ text.head?, ¬Literal.isSuffix c := by
  cases h with
  | closed h => exact h.not_isSuffix
  | @lineComment front body h _ =>
      cases front with
      | nil =>
          rintro c ⟨⟩
          decide
      | cons d front => exact h.not_isSuffix

end Layout

namespace Lexical

variable {rest rest' lexeme : List Char} {kind : Kind}

/-- A lexeme is still one if what follows it cannot belong to it. -/
theorem before (h : Lexical rest lexeme kind)
    (hrest : kind.isWordOrLiteral → ∀ c ∈ rest'.head?, ¬Literal.isSuffix c) :
    Lexical rest' lexeme kind := by
  cases h with
  | mark h => exact .mark h
  | word h hkind =>
      have hsolid : kind.isWordOrLiteral := by
        generalize String.ofList lexeme = word at hkind
        cases hkind <;> rfl
      exact .word h hkind fun c hc hpart =>
        hrest hsolid c hc (Literal.isSuffix_of_isWordPart hpart)
  | literal h hvalue => exact .literal h hvalue (hrest rfl)

theorem exists_marks (h : Lexical rest lexeme kind) (hkind : ¬kind.isWordOrLiteral) :
    ∃ c, lexeme = [c] ∧ Marks c kind := by
  cases h with
  | mark h => exact ⟨_, rfl, h⟩
  | word _ hnames =>
      generalize String.ofList lexeme = word at hnames
      cases hnames <;> exact absurd rfl hkind
  | literal => exact absurd rfl hkind

end Lexical

/-! ### Other gaps -/

namespace Divides

variable {text last last' : List Char} {pieces pieces' : List Piece}

/-- What follows a word or a literal does not go on with it, if some layout or a mark does. -/
theorem not_isSuffix_join (h : Divides text pieces last) (hrelaid : Piece.Relaid pieces pieces')
    (hfirst : ∀ q ∈ pieces'.head?, q.kind.isWordOrLiteral → q.layout ≠ [])
    (hlast : Layout.Trailing last') :
    ∀ c ∈ (Piece.join pieces' last').head?, ¬Literal.isSuffix c := by
  cases hrelaid.lexemes with
  | nil => exact hlast.not_isSuffix
  | @cons p q pieces pieces' hpq =>
      obtain ⟨hlexeme, hkind⟩ := hpq
      obtain ⟨rest, hlexical⟩ : ∃ rest, Lexical rest q.lexeme q.kind := by
        rw [hlexeme, hkind]
        cases h with
        | piece _ hlexical => exact ⟨_, hlexical⟩
      rw [Piece.join_cons]
      by_cases hempty : q.layout = []
      · have hmark : ¬q.kind.isWordOrLiteral := fun hsolid => hfirst q rfl hsolid hempty
        obtain ⟨c, hc, hmarks⟩ := hlexical.exists_marks hmark
        rw [hempty, hc]
        rintro d ⟨⟩
        exact hmarks.not_isSuffix
      · rw [List.head?_append_of_ne_nil _ hempty]
        exact (hrelaid.layout q List.mem_cons_self).not_isSuffix

/-- The pieces of a text with other layout between them divide the text that they make. -/
theorem relaid (h : Divides text pieces last) (hrelaid : Piece.Relaid pieces pieces')
    (hlast : Layout.Trailing last') : Divides (Piece.join pieces' last') pieces' last' := by
  induction h generalizing pieces' with
  | finish =>
      cases hrelaid.lexemes
      exact .finish hlast
  | @piece p rest pieces last _ hlexical hrest ih =>
      obtain ⟨hlexemes, hlayout, hgaps⟩ := hrelaid
      cases hlexemes with
      | @cons _ q _ pieces' hpq hlater =>
          obtain ⟨hlexeme, hkind⟩ := hpq
          rw [List.isChain_cons] at hgaps
          rw [List.forall_mem_cons] at hlayout
          have hrelaid' : Piece.Relaid pieces pieces' := ⟨hlater, hlayout.2, hgaps.2⟩
          rw [Piece.join_cons]
          refine .piece hlayout.1 ?_ (ih hrelaid')
          rw [hlexeme, hkind]
          refine hlexical.before fun hsolid => ?_
          exact hrest.not_isSuffix_join hrelaid'
            (fun r hr => hgaps.1 r hr (hkind ▸ hsolid)) hlast

end Divides

end MicroC
