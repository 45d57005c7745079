import MicroC.Source.Location
import MicroC.Source.Diagnostic
import MicroC.RiscV.Register
import MicroC.RiscV.Instruction
import MicroC.RiscV.Target
import MicroC.Breach
import MicroC.Checked
import MicroC.Unicode.Ranges
import MicroC.Unicode.WhiteSpace
import MicroC.Unicode.Alphanumeric
import MicroC.Unicode.Hidden
import MicroC.Json.Basic
import MicroC.Json.Text
import MicroC.Json.Reader
import MicroC.Token.Basic
import MicroC.Token.Layout
import MicroC.Token.Literal
import MicroC.Token.Lexeme
import MicroC.Token.Lexer
import MicroC.Tree.Basic
import MicroC.Tree.Printer
import MicroC.Tree.Parser
import MicroC.Source.Json
import MicroC.Token.Json
import MicroC.Tree.Json
import MicroC.Frame.Basic
import MicroC.Frame.Code
import MicroC.Emission.Error
import MicroC.Context.Scope
import MicroC.Context.Basic
import MicroC.Journal.Quoted
import MicroC.Journal.Record
import MicroC.Emission.Sink
import MicroC.Emission.Session
import MicroC.Emission.Basic
import MicroC.Emission.Operation
import MicroC.Compiler
import MicroC.Terminal
import MicroC.Files.Basic
import MicroC.Files.Tree
import MicroC.Command.Arguments
import MicroC.Command.Run
import MicroC.Main
import MicroC.Proofs.Token.Spelling
import MicroC.Proofs.Token.Room
import MicroC.Proofs.Grammar.Derivation
import MicroC.Proofs.Grammar.Parser
import MicroC.Proofs.Grammar.Reading
import MicroC.Proofs.Tree.Pruned
import MicroC.Proofs.Tree.RoundTrip
import MicroC.Proofs.Emission.Run
import MicroC.Proofs.Emission.Function
import MicroC.Proofs.Emission.Program
import MicroC.Proofs.RiscV.Machine
import MicroC.Proofs.Frame.Size
import MicroC.Proofs.Frame.Code
import MicroC.Proofs.Frame.Contract
import MicroC.Proofs.Emission.Execution
import MicroC.Proofs.Emission.Shape
import MicroC.Proofs.Grammar.Language
import MicroC.Proofs.Token.Layout
import MicroC.Proofs.Token.Lexeme
import MicroC.Proofs.Token.Division
import MicroC.Proofs.Files.Tree
import MicroC.Proofs.Command.Integrity
import MicroC.Proofs.Context.Runs
import MicroC.Proofs.Emission.Safety
import MicroC.Proofs.Frame.Slots
import MicroC.Proofs.Context.Brackets
import MicroC.Proofs.Emission.Separate
import MicroC.Proofs.Frame.Requests
import MicroC.Proofs.Json.Text
import MicroC.Proofs.Json.Forms
import MicroC.Proofs.Tree.Flat
import MicroC.Proofs.Context.Current
import MicroC.Proofs.Emission.Truncation
import MicroC.Proofs.Context.Scratch
import MicroC.Proofs.Context.Labels
import MicroC.Proofs.Emission.Returned
import MicroC.Proofs.Token.Numeral
import MicroC.Proofs.Token.Places
import MicroC.Proofs.Grammar.Prediction
import MicroC.Proofs.Emission.Whole
import MicroC.Proofs.Token.Progress
import MicroC.Proofs.Token.Gaps
import MicroC.Proofs.Grammar.Kinds
import MicroC.Proofs.Tree.Absent
import MicroC.Proofs.Emission.Targets
import MicroC.Proofs.Emission.Listing
