/-!
Text without what steers a terminal. Control characters other than blanks are
left out, and so are the sequences that an escape character opens.
-/

namespace MicroC.Terminal

/-- A sequence that is open, by what may follow. -/
inductive Sequence where
  /-- The escape character, which tells the kind of the sequence next. -/
  | escape
  /-- An escape sequence of more than two characters. -/
  | longEscape
  | control
  /-- A device control string, before its parameters. -/
  | device
  | deviceParameters
  | deviceIntermediate
  /-- A string that goes on up to the string terminator. -/
  | string
  /-- A command to the operating system, which the bell ends. -/
  | command
  deriving DecidableEq

inductive Mode where
  | text
  | inside (sequence : Sequence)
  /-- A sequence that a blank has interrupted. What shows is shown up to the
  next control character, from which on the sequence continues. -/
  | interrupted (sequence : Sequence)
  deriving DecidableEq

/-- Tabs and what starts a line or a page. -/
def isBlank (c : Char) : Bool := c = '\t' || c = '\n' || c = '\x0c' || c = '\r'

def shows (c : Char) : Bool := isBlank c || (' ' ≤ c && c ≠ '\x7f')

def isIntermediate (c : Char) : Bool := ' ' ≤ c && c ≤ '/'

def isParameter (c : Char) : Bool := '0' ≤ c && c ≤ '?'

def isFinal (c : Char) : Bool := '@' ≤ c && c ≤ '~'

/-- The string terminator is a byte, `9C`, and counts wherever it stands in the
encoding of a character. -/
def isTerminator (c : Char) : Bool := (String.utf8EncodeChar c).contains 0x9C

namespace Sequence

/-- The sequence with one more character, or `none` where that one ends it. -/
def next : Sequence → Char → Option Sequence
  | escape, '[' => some control
  | escape, ']' => some command
  | escape, 'P' => some device
  | escape, 'X' | escape, '^' | escape, '_' => some string
  | escape, c =>
      if isIntermediate c then some longEscape
      else if isParameter c || isFinal c then none
      else some escape
  | longEscape, c => if isParameter c || isFinal c then none else some longEscape
  | control, c => if isFinal c then none else some control
  | device, c =>
      if isIntermediate c then some deviceIntermediate
      else if isParameter c then some deviceParameters
      else if isFinal c then some string
      else some device
  | deviceParameters, c =>
      if isIntermediate c then some deviceIntermediate
      -- A private parameter is out of place after the first one.
      else if '<' ≤ c && c ≤ '~' then some string
      else some deviceParameters
  | deviceIntermediate, c =>
      if isParameter c || isFinal c then some string else some deviceIntermediate
  | string, c => if isTerminator c then none else some string
  | command, c => if c = '\x07' then none else some command

/-- Where one more character leads. Two characters cancel any sequence, and an
escape character opens a new one. -/
def after (s : Sequence) (c : Char) : Mode :=
  match c with
  | '\x18' | '\x1a' => .text
  | '\x1b' => .inside .escape
  | c => (s.next c).elim .text .inside

/-- Whether blanks show inside the sequence. -/
def yieldsBlanks : Sequence → Bool
  | escape | longEscape | control => true
  | device | deviceParameters | deviceIntermediate | string | command => false

end Sequence

/-- Where a character leads, and whether it is shown. Beyond ASCII, a character
that is shown also ends an interrupted sequence. -/
def Mode.step : Mode → Char → Mode × Bool
  | text, c =>
      if shows c then (text, true)
      else (if c = '\x1b' then inside .escape else text, false)
  | inside s, c =>
      if s.yieldsBlanks && isBlank c then (interrupted s, true) else (s.after c, false)
  | interrupted s, c =>
      if shows c then (if c ≤ '\x7f' then interrupted s else text, true)
      else (s.after c, false)

def shown : Mode → List Char → List Char
  | _, [] => []
  | mode, c :: rest =>
      let (next, visible) := mode.step c
      if visible then c :: shown next rest else shown next rest

def plain (s : String) : String := .ofList (shown .text s.toList)

end MicroC.Terminal
