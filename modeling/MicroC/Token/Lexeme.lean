import MicroC.Token.Basic
import MicroC.Token.Literal

/-!
Lexemes: the longest piece of text that spells one token.
-/

namespace MicroC

inductive Lexeme.Cause where
  | unterminatedComment
  | literal (fault : Literal.Fault)
  | unexpectedCharacter (c : Char)
  deriving DecidableEq

structure Lexeme where
  kind : Token.Kind
  /-- Characters in the lexeme. -/
  length : Nat
  deriving DecidableEq

namespace Lexeme

def Cause.message : Cause → String
  | unterminatedComment => "Unterminated block comment"
  | literal .noDigits => "Invalid hex literal"
  | literal (.octalDigit digit) => s!"Invalid digit '{digit}' in octal literal"
  | literal (.suffix c) => s!"Invalid suffix '{c}' on integer literal"
  | literal (.range digits) => s!"Integer literal out of range: {digits}"
  | unexpectedCharacter c => s!"Unexpected character '{c}'"

/-- Why no lexeme stands at the head of a text: what is wrong `offset`
characters on, and how many characters were read to find out. -/
structure Fault where
  cause : Cause
  offset : Nat
  length : Nat
  deriving DecidableEq

def isWordStart (c : Char) : Bool := c.isAlpha || c == '_'

def isWordPart (c : Char) : Bool := c.isAlphanum || c == '_'

def ofWord (text : List Char) : Lexeme :=
  let word := text.takeWhile isWordPart
  ⟨.ofWord (.ofList word), word.length⟩

def ofLiteral (text : List Char) : Except Fault Lexeme :=
  let literal := Literal.scan text
  match literal.read (text.drop literal.length).head? with
  | .ok value => .ok ⟨.literal value, literal.length⟩
  | .error fault =>
      let offset := match fault with
        | .suffix _ => literal.length
        | _ => 0
      .error ⟨.literal fault, offset, literal.length⟩

def ofMark : List Char → Except Fault Lexeme
  | [] => .ok ⟨.endOfFile, 0⟩
  | '(' :: _ => .ok ⟨.leftParen, 1⟩
  | ')' :: _ => .ok ⟨.rightParen, 1⟩
  | '{' :: _ => .ok ⟨.leftBrace, 1⟩
  | '}' :: _ => .ok ⟨.rightBrace, 1⟩
  | ';' :: _ => .ok ⟨.semicolon, 1⟩
  | '/' :: '*' :: rest => .error ⟨.unterminatedComment, 0, rest.length + 2⟩
  | c :: _ => .error ⟨.unexpectedCharacter c, 0, 0⟩

/-- The lexeme at the head of a text that begins with no layout. -/
def scan (text : List Char) : Except Fault Lexeme :=
  match text.head? with
  | none => ofMark text
  | some c =>
      if isWordStart c then .ok (ofWord text)
      else if c.isDigit then ofLiteral text
      else ofMark text

theorem isWordPart_of_isWordStart {c : Char} (h : isWordStart c) : isWordPart c := by
  simp_all only [isWordStart, isWordPart, Char.isAlphanum, Bool.or_eq_true]
  rcases h with h | h
  · exact .inl (.inl h)
  · exact .inr h

/-- Every lexeme but the end of the text takes up characters. -/
theorem length_pos_of_scan {text : List Char} {l : Lexeme} (h : scan text = .ok l)
    (hk : l.kind ≠ .endOfFile) : 0 < l.length := by
  cases text with
  | nil =>
      simp only [scan, List.head?_nil, ofMark, Except.ok.injEq] at h
      subst h
      exact absurd rfl hk
  | cons c rest =>
      simp only [scan, List.head?_cons] at h
      split at h
      · rename_i hc
        simp only [Except.ok.injEq] at h
        subst h
        simp [ofWord, isWordPart_of_isWordStart hc]
      · split at h
        · rename_i hd
          simp only [ofLiteral] at h
          split at h
          · simp only [Except.ok.injEq] at h
            subst h
            exact Literal.length_scan_pos hd
          · exact absurd h (by simp)
        · unfold ofMark at h
          split at h <;> simp_all <;> subst h <;> simp

end Lexeme

end MicroC
