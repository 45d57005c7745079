import MicroC.Command.Arguments
import MicroC.Compiler
import MicroC.Files.Basic
import MicroC.Terminal
import MicroC.Tree.Json

/-!
The command: it compiles a source file to an assembly file, and writes the
tree that it read beside it. A run that fails leaves no assembly file behind.
-/

namespace MicroC.Command

open Journal

inductive Failure where
  | diagnostic (diagnostic : Diagnostic)
  | emission (error : EmitError)
  | file (error : FileError)
  deriving DecidableEq

namespace Failure

def message : Failure → String
  | diagnostic d => d.message
  | emission error => error.message
  | file error => s!"IO error: {error.text}"

def exitCode : Failure → UInt32
  | diagnostic d => if d.blamesSource then 3 else 1
  | emission _ | file _ => 1

end Failure

/-- What a run has said so far. -/
structure Report where
  /-- The records, the last one first. -/
  journal : List Record
  stdout : String

def Report.empty : Report := ⟨[], ""⟩

abbrev CommandM (m : Type → Type) := ExceptT (Halt Failure) (StateT Report m)

/-- What the caller of the command sees. -/
structure Outcome where
  exitCode : UInt32
  stdout : String
  stderr : String
  deriving DecidableEq

section

variable {m : Type → Type} [Monad m]

def note (records : List Record) : CommandM m Unit :=
  modify fun report => { report with journal := records.reverse ++ report.journal }

def say (text : String) : CommandM m Unit :=
  modify fun report => { report with stdout := report.stdout ++ text }

def fail {α : Type} (failure : Failure) : CommandM m α := throw (.failure failure)

def readSource (files : FileAccess m) (path : String) : CommandM m String := do
  match ← files.read path with
  | .error error => fail (.diagnostic (.unreadable error.text))
  | .ok content =>
      match String.fromUTF8? content with
      | some source => return source
      | none => fail (.diagnostic (.unreadable FileError.notText.text))

def writeText (files : FileAccess m) (path text : String) : CommandM m Unit := do
  match ← files.write path text.toUTF8 with
  | .ok () => return
  | .error error => fail (.file error)

def readTree (path source : String) : CommandM m Node := do
  let (result, records) := readProgram path source
  note records
  match result with
  | .ok root => return root
  | .error (.failure d) => fail (.diagnostic d)
  | .error (.breach breach) => throw (.breach breach)

/-- The tree of a source file. -/
def load (files : FileAccess m) (path : String) : CommandM m Node := do
  readTree path (← readSource files path)

def assemble (options : Options) (root : Node) : CommandM m String := do
  let assembly := Assembly.ofTree options.target root
  note assembly.records
  match assembly.result with
  | .ok text => return text
  | .error (.failure error) => fail (.emission error)
  | .error (.breach breach) => throw (.breach breach)

/-- Where the tree that was read is written. -/
def Options.listingPath (options : Options) : String := options.output ++ ".printed"

def compile (files : FileAccess m) (options : Options) : CommandM m Unit := do
  note [.parsing options.source]
  let root ← load files options.source
  if options.dumpTree then
    say (root.toJson.pretty ++ "\n")
  writeText files options.listingPath root.print
  note [.printed options.listingPath]
  writeText files options.output (← assemble options root)
  note [.compiled options.output]

/-- Removes what an earlier run may have left. -/
def discardOutput (files : FileAccess m) (output : String) : StateT Report m Unit := do
  let note (record : Record) : StateT Report m Unit :=
    modify fun report => { report with journal := record :: report.journal }
  match ← files.remove output with
  | .ok () => note (.staleRemoved output)
  | .error .missing => return
  | .error error => note (.staleKept output error.text)

def level (verbosity : Nat) : Level :=
  match verbosity with
  | 0 => .warn
  | 1 => .info
  | _ => .debug

/-- A record as a line of plain text. What goes on after a line feed is
indented. -/
def logLine (record : Record) : String :=
  let padding := "".pushn ' ' (5 - record.level.name.length)
  let text := String.ofList (record.text.toList.flatMap fun c =>
    if c = '\n' then "\n    ".toList else [c])
  Terminal.plain s!"[{record.level.name}{padding} {record.source}] {text}\n"

def Report.log (report : Report) (verbosity : Nat) : String :=
  String.join ((visible (level verbosity) report.journal.reverse).map logLine)

def runOptions (files : FileAccess m) (options : Options) : m Outcome := do
  let (result, report) ← (compile files options).run Report.empty
  match result with
  | .ok () => return ⟨0, report.stdout, report.log options.verbosity⟩
  | .error (.failure failure) =>
      let ((), report) ← (discardOutput files options.output).run report
      return ⟨failure.exitCode, report.stdout,
        report.log options.verbosity ++ s!"error: {failure.message}\n"⟩
  | .error (.breach breach) =>
      return ⟨101, report.stdout, report.log options.verbosity ++ s!"{breach.message}\n"⟩

def versionText : String := "rvcc 0.1.0\n"

def helpText : String :=
  "C subset compiler targeting RISC-V assembly

Usage: rvcc [OPTIONS] -S <SOURCE> -o <OUTPUT>

Options:
  -S <SOURCE>            Input C source file
  -o <OUTPUT>            Output assembly file
      --target <TARGET>  Target base ISA [default: rv32] [possible values: rv32, rv64]
      --dump-ast         Print the parsed AST as JSON to stdout
  -v, --verbose...       Verbose output (-v for stages, -vv for code generation detail)
  -h, --help             Print help
  -V, --version          Print version
"

def run (files : FileAccess m) (arguments : List String) : m Outcome :=
  match readArguments arguments with
  | .ok (.compile options) => runOptions files options
  | .ok .version => return ⟨0, versionText, ""⟩
  | .ok .help => return ⟨0, helpText, ""⟩
  | .error error =>
      return ⟨2, "", s!"error: {error.message}\n\nFor more information, try '--help'.\n"⟩

end

end MicroC.Command
