import MicroC.Unicode.Alphanumeric

/-!
Integer literals. The spelling chooses the radix: `0x` or `0X` and hexadecimal
digits, a zero and octal digits, or decimal digits that do not begin with a
zero.
-/

namespace MicroC

inductive Radix where
  | octal | decimal | hexadecimal
  deriving DecidableEq

def Radix.base : Radix → Nat
  | octal => 8
  | decimal => 10
  | hexadecimal => 16

structure Literal where
  radix : Radix
  /-- What follows the mark of the radix. -/
  digits : List Char
  deriving DecidableEq

namespace Literal

inductive Fault where
  | noDigits
  | octalDigit (digit : Char)
  | suffix (c : Char)
  | range (digits : String)
  deriving DecidableEq

def isHexDigit (c : Char) : Bool :=
  c.isDigit || ('a' ≤ c && c ≤ 'f') || ('A' ≤ c && c ≤ 'F')

def digitValue (c : Char) : Nat :=
  if 'a' ≤ c then c.toNat - 'a'.toNat + 10
  else if 'A' ≤ c then c.toNat - 'A'.toNat + 10
  else c.toNat - '0'.toNat

/-- The longest literal that a text beginning with a digit begins with. -/
def scan : List Char → Literal
  | '0' :: 'x' :: rest => ⟨.hexadecimal, rest.takeWhile isHexDigit⟩
  | '0' :: 'X' :: rest => ⟨.hexadecimal, rest.takeWhile isHexDigit⟩
  | '0' :: rest => ⟨.octal, rest.takeWhile Char.isDigit⟩
  | text => ⟨.decimal, text.takeWhile Char.isDigit⟩

/-- Characters in the literal, the mark of its radix included. -/
def length (l : Literal) : Nat :=
  match l.radix with
  | .hexadecimal => l.digits.length + 2
  | .octal => l.digits.length + 1
  | .decimal => l.digits.length

def value (l : Literal) : Nat :=
  l.digits.foldl (fun value digit => l.radix.base * value + digitValue digit) 0

/-- A letter, a number or an underscore may not follow a literal. -/
def isSuffix (c : Char) : Bool := Unicode.isAlphanumeric c || c == '_'

/-- A literal by itself is well formed if it has a digit and every digit
belongs to its radix. -/
def check (l : Literal) : Except Fault Unit :=
  match l.radix with
  | .hexadecimal => if l.digits.isEmpty then .error .noDigits else .ok ()
  | .octal =>
      match l.digits.find? ('7' < ·) with
      | some digit => .error (.octalDigit digit)
      | none => .ok ()
  | .decimal => .ok ()

/-- The value of a literal that `next` follows, where 64 signed bits hold it. -/
def read (l : Literal) (next : Option Char) : Except Fault Int64 := do
  l.check
  if let some c := next.filter isSuffix then
    throw (.suffix c)
  if l.value ≤ Int64.maxValue.toInt then
    return .ofNat l.value
  else
    throw (.range (.ofList l.digits))

theorem length_scan_pos {c : Char} {rest : List Char} (h : c.isDigit) :
    0 < (scan (c :: rest)).length := by
  unfold scan
  split <;> simp_all [length, List.takeWhile]

end Literal

end MicroC
