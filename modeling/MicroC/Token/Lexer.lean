import MicroC.Breach
import MicroC.Checked
import MicroC.Source.Diagnostic
import MicroC.Token.Layout
import MicroC.Token.Lexeme

/-!
Cutting source text into tokens. A cursor stands in the text and knows its
line and column, so that each token and each error carries its place.
-/

namespace MicroC

structure LexicalError where
  location : Location
  cause : Lexeme.Cause
  deriving DecidableEq

def LexicalError.toDiagnostic (e : LexicalError) : Diagnostic := .lexical e.location e.cause.message

structure Cursor where
  /-- The text that was not read yet. -/
  rest : List Char
  line : UInt32
  column : UInt32
  deriving DecidableEq

namespace Cursor

def start (source : String) : Cursor := ⟨source.toList, 1, 1⟩

def location (file : String) (c : Cursor) : Location := ⟨file, c.line, c.column⟩

/-- Passes one character. A line feed begins a line, and nothing else does. -/
def advance (c : Cursor) : Except Breach Cursor :=
  match c.rest with
  | [] => .ok c
  | char :: rest =>
      if char = '\n' then (Checked.add c.line 1).map fun line => ⟨rest, line, 1⟩
      else (Checked.add c.column 1).map fun column => ⟨rest, c.line, column⟩

/-- Passes `count` characters. -/
def skip : Nat → Cursor → Except Breach Cursor
  | 0, c => .ok c
  | count + 1, c => c.advance.bind (skip count)

/-- Reads the next token. A call that fails leaves the cursor where it stopped
reading. -/
def next (file : String) (c : Cursor) : Except (Halt LexicalError) Token × Cursor :=
  match c.skip (Layout.length c.rest) with
  | .error breach => (.error (.breach breach), c)
  | .ok start =>
      match Lexeme.scan start.rest with
      | .ok lexeme =>
          match start.skip lexeme.length with
          | .error breach => (.error (.breach breach), start)
          | .ok stop => (.ok ⟨lexeme.kind, ⟨start.location file, stop.location file⟩⟩, stop)
      | .error fault =>
          match start.skip fault.offset with
          | .error breach => (.error (.breach breach), start)
          | .ok place =>
              match place.skip (fault.length - fault.offset) with
              | .error breach => (.error (.breach breach), place)
              | .ok stop => (.error (.failure ⟨place.location file, fault.cause⟩), stop)

theorem rest_of_advance {c c' : Cursor} (h : c.advance = .ok c') : c'.rest = c.rest.drop 1 := by
  unfold advance at h
  split at h
  · rename_i hr
    simp only [Except.ok.injEq] at h
    subst h
    simp [hr]
  · rename_i hr
    split at h
    · cases ha : Checked.add c.line 1 <;> simp only [ha, Except.map] at h <;> cases h
      simp [hr]
    · cases ha : Checked.add c.column 1 <;> simp only [ha, Except.map] at h <;> cases h
      simp [hr]

theorem rest_of_skip {count : Nat} {c c' : Cursor} (h : c.skip count = .ok c') :
    c'.rest = c.rest.drop count := by
  induction count generalizing c with
  | zero =>
      simp only [skip, Except.ok.injEq] at h
      subst h
      rfl
  | succ count ih =>
      simp only [skip] at h
      cases ha : c.advance with
      | error _ => simp [ha, Except.bind] at h
      | ok middle =>
          rw [ha] at h
          rw [ih h, rest_of_advance ha, List.drop_drop, Nat.add_comm]

/-- Every token but the last one takes up text. -/
theorem length_rest_of_next {file : String} {c c' : Cursor} {t : Token}
    (h : c.next file = (.ok t, c')) (hk : t.kind ≠ .endOfFile) :
    c'.rest.length < c.rest.length := by
  unfold next at h
  split at h
  · simp at h
  · rename_i start hstart
    split at h
    · rename_i lexeme hlexeme
      split at h
      · simp at h
      · rename_i stop hstop
        simp only [Prod.mk.injEq, Except.ok.injEq] at h
        obtain ⟨rfl, rfl⟩ := h
        have hpos := Lexeme.length_pos_of_scan hlexeme hk
        have hne : start.rest ≠ [] := by
          intro hnil
          rw [hnil] at hlexeme
          simp only [Lexeme.scan, List.head?_nil, Lexeme.ofMark, Except.ok.injEq] at hlexeme
          subst hlexeme
          exact hk rfl
        have hlen := List.length_pos_iff.mpr hne
        have hrest := rest_of_skip hstart
        have hle : start.rest.length ≤ c.rest.length := by
          rw [hrest, List.length_drop]
          omega
        rw [rest_of_skip hstop, List.length_drop]
        omega
    · split at h
      · simp at h
      · split at h <;> simp at h

/-- The tokens from the cursor on, up to and with the end of the text. -/
def tokens (file : String) (c : Cursor) : Except (Halt LexicalError) (List Token) :=
  match h : c.next file with
  | (.error stop, _) => .error stop
  | (.ok token, c') =>
      if hk : token.kind = .endOfFile then .ok [token]
      else
        have := length_rest_of_next h hk
        (tokens file c').map (token :: ·)
termination_by c.rest.length

end Cursor

/-- All tokens of a text, or its first lexical error. -/
def tokenize (file source : String) : Except (Halt LexicalError) (List Token) :=
  (Cursor.start source).tokens file

end MicroC
