/-!
Places in source text. Lines and columns count from one; a column counts
characters, not bytes.
-/

namespace MicroC

structure Location where
  file : String
  line : UInt32
  column : UInt32
  deriving DecidableEq

namespace Location

/-- The place of a token that no source text supplied. -/
def unknown : Location := ⟨"<unknown>", 0, 0⟩

def text (l : Location) : String := s!"{l.file}:{l.line}:{l.column}"

end Location

/-- The stretch of text from `start` up to, and not including, `stop`. -/
structure Span where
  start : Location
  stop : Location
  deriving DecidableEq

namespace Span

/-- The empty stretch at one place. -/
def point (l : Location) : Span := ⟨l, l⟩

/-- What both ends share is written once. -/
def text (s : Span) : String :=
  if s.start.file ≠ s.stop.file then
    s!"{s.start.text} to {s.stop.text}"
  else if s.start.line ≠ s.stop.line then
    s!"{s.start.text}-{s.stop.line}:{s.stop.column}"
  else if s.start.column ≠ s.stop.column then
    s!"{s.start.text}-{s.stop.column}"
  else
    s.start.text

end Span

end MicroC
