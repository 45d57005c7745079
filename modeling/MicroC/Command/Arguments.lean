import MicroC.RiscV.Target

/-!
The arguments of the command. They are read from left to right, and the first
one that is wrong, or that asks for the version or for help, decides.
-/

namespace MicroC.Command

open RiscV (Target)

structure Options where
  source : String
  output : String
  target : Target
  dumpTree : Bool
  verbosity : Nat
  deriving DecidableEq

inductive Request where
  | compile (options : Options)
  | version
  | help
  deriving DecidableEq

/-- The options that take a value. -/
inductive Valued where
  | source | output | target
  deriving DecidableEq

def Valued.usage : Valued → String
  | source => "-S <SOURCE>"
  | output => "-o <OUTPUT>"
  | target => "--target <TARGET>"

inductive UsageError where
  | unexpected (argument : String)
  | repeated (option : String)
  | missing (option : Valued)
  | missingValue (option : Valued)
  | invalidValue (option : Valued) (value : String)
  | unneededValue (option : String)
  deriving DecidableEq

def UsageError.message : UsageError → String
  | unexpected argument => s!"unexpected argument '{argument}' found"
  | repeated option => s!"the argument '{option}' cannot be used multiple times"
  | missing option => s!"the argument '{option.usage}' was not provided"
  | missingValue option => s!"a value is required for '{option.usage}' but none was supplied"
  | invalidValue option value => s!"invalid value '{value}' for '{option.usage}'"
  | unneededValue option => s!"the argument '{option}' takes no value"

/-- What the arguments read so far have settled. -/
structure Draft where
  source : Option String
  output : Option String
  target : Option Target
  dumpTree : Bool
  verbosity : Nat

/-- What follows from one argument. -/
inductive Step where
  | more (draft : Draft)
  /-- The next argument is the value of an option. -/
  | value (draft : Draft) (option : Valued)
  /-- No option follows. -/
  | last (draft : Draft)
  | decided (request : Request)

namespace Draft

def empty : Draft := ⟨none, none, none, false, 0⟩

/-- Each option is given at most once, a path is not empty, and a target is
known. -/
def set (d : Draft) (option : Valued) (value : String) : Except UsageError Draft :=
  match option with
  | .source =>
      if d.source.isSome then .error (.repeated option.usage)
      else if value.isEmpty then .error (.invalidValue option value)
      else .ok { d with source := some value }
  | .output =>
      if d.output.isSome then .error (.repeated option.usage)
      else if value.isEmpty then .error (.invalidValue option value)
      else .ok { d with output := some value }
  | .target =>
      if d.target.isSome then .error (.repeated option.usage)
      else match Target.ofName? value with
        | some target => .ok { d with target := some target }
        | none => .error (.invalidValue option value)

/-- An option whose value, if the rest of the argument has it, may follow an
equals sign. -/
def attached (d : Draft) (option : Valued) : List Char → Except UsageError Step
  | [] => .ok (.value d option)
  | '=' :: value => (d.set option (.ofList value)).map .more
  | value => (d.set option (.ofList value)).map .more

/-- Letters after one dash. Each is an option by itself, up to one that takes
a value. -/
def letters (d : Draft) : List Char → Except UsageError Step
  | [] => .ok (.more d)
  | 'v' :: rest => { d with verbosity := d.verbosity + 1 }.letters rest
  | 'V' :: _ => .ok (.decided .version)
  | 'h' :: _ => .ok (.decided .help)
  | 'S' :: rest => d.attached .source rest
  | 'o' :: rest => d.attached .output rest
  | c :: _ => .error (.unexpected s!"-{c}")

/-- A word after two dashes, with the value that follows its equals sign. -/
def word (d : Draft) (name : String) (value : Option String) : Except UsageError Step :=
  match name, value with
  | "target", none => .ok (.value d .target)
  | "target", some value => (d.set .target value).map .more
  | "dump-ast", none =>
      if d.dumpTree then .error (.repeated "--dump-ast")
      else .ok (.more { d with dumpTree := true })
  | "verbose", none => .ok (.more { d with verbosity := d.verbosity + 1 })
  | "version", none => .ok (.decided .version)
  | "help", none => .ok (.decided .help)
  | name, none => .error (.unexpected s!"--{name}")
  | name, some _ =>
      if name ∈ ["dump-ast", "verbose", "version", "help"] then
        .error (.unneededValue s!"--{name}")
      else .error (.unexpected s!"--{name}")

def argument (d : Draft) (text : String) : Except UsageError Step :=
  match text.toList with
  | ['-', '-'] => .ok (.last d)
  | '-' :: '-' :: rest =>
      let name := String.ofList (rest.takeWhile (· != '='))
      match rest.dropWhile (· != '=') with
      | [] => d.word name none
      | _ :: value => d.word name (some (.ofList value))
  | '-' :: c :: rest => d.letters (c :: rest)
  | _ => .error (.unexpected text)

def finish (d : Draft) : Except UsageError Request :=
  match d.source, d.output with
  | none, _ => .error (.missing .source)
  | _, none => .error (.missing .output)
  | some source, some output =>
      .ok (.compile ⟨source, output, d.target.getD .rv32, d.dumpTree, d.verbosity⟩)

/-- Whether an argument of its own can be the value of an option: it does not
look like an option. -/
def isValue (text : String) : Bool :=
  match text.toList with
  | '-' :: _ :: _ => false
  | _ => true

def read (d : Draft) : List String → Except UsageError Request
  | [] => d.finish
  | text :: rest =>
      match d.argument text, rest with
      | .error error, _ => .error error
      | .ok (.decided request), _ => .ok request
      | .ok (.more d), rest => d.read rest
      | .ok (.last d), [] => d.finish
      | .ok (.last _), text :: _ => .error (.unexpected text)
      | .ok (.value _ option), [] => .error (.missingValue option)
      | .ok (.value d option), value :: rest =>
          if isValue value then
            match d.set option value with
            | .error error => .error error
            | .ok d => d.read rest
          else .error (.missingValue option)

end Draft

def readArguments (arguments : List String) : Except UsageError Request :=
  Draft.empty.read arguments

end MicroC.Command
