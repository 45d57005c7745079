import MicroC.Command.Run

/-!
The command on the files of the system.
-/

namespace MicroC

/-- The number of a system error, which some calls report with its sign
turned. -/
def errorNumber (code : UInt32) : UInt32 := min code (0 - code)

def fileError (error : IO.Error) : FileError :=
  match error with
  | .noFileOrDirectory .. => .missing
  | .inappropriateType _ code details =>
      if errorNumber code = 20 then .notDirectory
      else if errorNumber code = 21 then .isDirectory
      else .other s!"{details} (os error {errorNumber code})"
  | .invalidArgument path code details =>
      if path.any (·.toList.contains '\x00') then .nullInName
      else if errorNumber code = 36 then .nameTooLong
      else .other s!"{details} (os error {errorNumber code})"
  | .permissionDenied _ code details => .other s!"{details} (os error {errorNumber code})"
  | error => .other (toString error)

def attempt {α : Type} (action : IO α) : IO (Except FileError α) := do
  match ← action.toBaseIO with
  | .ok a => return .ok a
  | .error error => return .error (fileError error)

def systemFiles : FileAccess IO where
  read path := attempt (IO.FS.readBinFile path)
  write path content := attempt (IO.FS.writeBinFile path content)
  remove path := do
    -- A directory is not removed: it cannot be read either.
    match ← attempt (IO.FS.readBinFile path) with
    | .error error => return .error error
    | .ok _ => attempt (IO.FS.removeFile path)

end MicroC

def main (arguments : List String) : IO UInt32 := do
  let outcome ← MicroC.Command.run MicroC.systemFiles arguments
  IO.print outcome.stdout
  IO.eprint outcome.stderr
  return outcome.exitCode
