import MicroC.Emission.Basic
import MicroC.Token.Lexer
import MicroC.Tree.Parser
import MicroC.Tree.Printer

/-!
From source text to a tree, and from a tree to assembly text.
-/

namespace MicroC

open RiscV (Target)
open Journal (Record)

/-- The tree of a source text, or what is wrong with the text. -/
def readProgram (file source : String) : Except (Halt Diagnostic) Node × List Record :=
  match tokenize file source with
  | .error (.failure error) => (.error (.failure error.toDiagnostic), [])
  | .error (.breach breach) => (.error (.breach breach), [])
  | .ok tokens =>
      let result := match parse tokens with
        | .ok root => .ok root
        | .error error => .error (.failure error.toDiagnostic)
      (result, [.tokenized file tokens.length])

structure Assembly where
  result : Except (Halt EmitError) String
  /-- What reached the stream, also if `result` is an error. -/
  written : ByteArray
  records : List Record

namespace Assembly

def ofTree (target : Target) (root : Node) : Assembly :=
  let (result, session) := emitAlone target root (.ofContext (.empty target))
  let written := session.sink.written
  let result := match result with
    | .error stop => .error stop
    | .ok () =>
        match String.fromUTF8? written with
        | some text => .ok text
        | none => .error (.failure (.stream .notText))
  ⟨result, written, session.records⟩

/-- Whether two assemblies read alike, in their texts or in their errors and
what came before them. -/
def alike (a b : Assembly) : Bool :=
  match a.result, b.result with
  | .ok text, .ok text' => text == text'
  | .error (.failure error), .error (.failure error') =>
      error.message == error'.message && a.written == b.written
  | .error (.breach breach), .error (.breach breach') => breach == breach'
  | _, _ => false

end Assembly

/-- How a tree compares with the tree that its printed form is read as. -/
structure Reparse where
  sameTree : Bool
  samePrint : Bool
  sameAssembly : Bool
  deriving DecidableEq

def Node.reparse (target : Target) (root : Node) : Except (Halt Diagnostic) Reparse :=
  let printed := root.print
  match (readProgram "printed.c" printed).1 with
  | .error stop => .error stop
  | .ok again =>
      .ok ⟨again = root, again.print == printed,
        (Assembly.ofTree target again).alike (Assembly.ofTree target root)⟩

end MicroC
