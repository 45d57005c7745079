import MicroC.Json.Basic
import MicroC.Source.Location

/-!
The JSON form of places.
-/

namespace MicroC

namespace Location

def toJson (l : Location) : Json :=
  .object [("filename", .string l.file), ("line", .integer l.line.toNat),
    ("column", .integer l.column.toNat)]

def ofJson? (j : Json) : Option Location :=
  match j.fields? ["filename", "line", "column"] with
  | some [some file, some line, some column] => do
      return ⟨← file.string?, ← line.uint32?, ← column.uint32?⟩
  | _ => none

end Location

namespace Span

def toJson (s : Span) : Json := .object [("start", s.start.toJson), ("end", s.stop.toJson)]

def ofJson? (j : Json) : Option Span :=
  match j.fields? ["start", "end"] with
  | some [some start, some stop] => do
      return ⟨← Location.ofJson? start, ← Location.ofJson? stop⟩
  | _ => none

end Span

end MicroC
