import MicroC.Source.Location

/-!
What a user is told when source text cannot be read or is not a program.
-/

namespace MicroC

inductive Diagnostic where
  | lexical (location : Location) (reason : String)
  | grammar (location : Location) (reason : String)
  | unreadable (reason : String)
  deriving DecidableEq

namespace Diagnostic

def message : Diagnostic → String
  | lexical location reason => s!"Lexical error at {location.text}: {reason}"
  | grammar location reason => s!"Parse error at {location.text}: {reason}"
  | unreadable reason => s!"IO error: {reason}"

/-- Whether the source text itself is at fault. -/
def blamesSource : Diagnostic → Bool
  | lexical .. | grammar .. => true
  | unreadable _ => false

end Diagnostic

end MicroC
