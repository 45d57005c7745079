import MicroC.Emission.Error

/-!
Streams of bytes, which may have room for a limited number of them.
-/

namespace MicroC

structure Sink where
  written : ByteArray
  /-- How many more bytes the stream takes, if that is limited. -/
  room : Option Nat

namespace Sink

def unlimited : Sink := ⟨.empty, none⟩

def limited (room : Nat) : Sink := ⟨.empty, some room⟩

/-- Writes bytes as far as there is room. -/
def write (s : Sink) (bytes : ByteArray) : Except EmitError Unit × Sink :=
  match s.room with
  | none => (.ok (), { s with written := s.written ++ bytes })
  | some room =>
      if bytes.size ≤ room then
        (.ok (), ⟨s.written ++ bytes, some (room - bytes.size)⟩)
      else
        (.error (.stream .full), ⟨s.written ++ bytes.extract 0 room, some 0⟩)

end Sink

end MicroC
