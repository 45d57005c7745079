/-!
Why a file cannot be read, written or removed, and what a program needs of a
file system.
-/

namespace MicroC

inductive FileError where
  | missing
  | notDirectory
  | isDirectory
  /-- A name, or a whole path, of more bytes than are allowed. -/
  | nameTooLong
  /-- A path with a null character, which no name has. -/
  | nullInName
  | notText
  | other (reason : String)
  deriving DecidableEq

def FileError.text : FileError → String
  | missing => "No such file or directory (os error 2)"
  | notDirectory => "Not a directory (os error 20)"
  | isDirectory => "Is a directory (os error 21)"
  | nameTooLong => "File name too long (os error 36)"
  | nullInName => "file name contained an unexpected NUL byte"
  | notText => "stream did not contain valid UTF-8"
  | other reason => reason

/-- The operations on files that a program runs with. -/
structure FileAccess (m : Type → Type) where
  read : String → m (Except FileError ByteArray)
  /-- Makes a file with the given content, or replaces what an existing one
  holds. -/
  write : String → ByteArray → m (Except FileError Unit)
  remove : String → m (Except FileError Unit)

end MicroC
