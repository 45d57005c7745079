import MicroC.Files.Basic

/-!
A file system as a value: the files and directories by their paths from the
root, and the working directory, from which paths without a slash in front of
them lead. Paths lead through directories only.
-/

namespace MicroC

inductive FileTree.Entry where
  | file (content : ByteArray)
  | directory

structure FileTree where
  /-- What there is beside the root, which is always there. -/
  entries : List (List String × FileTree.Entry)
  workingDirectory : List String

namespace FileTree

def find? (t : FileTree) (path : List String) : Option Entry :=
  if path.isEmpty then some .directory else t.entries.lookup path

/-- Replaces the entry at a path, or adds it as the last one. -/
def put (t : FileTree) (path : List String) (entry : Entry) : FileTree :=
  if (t.entries.lookup path).isSome then
    { t with
      entries := t.entries.map fun (key, old) => if key = path then (key, entry) else (key, old) }
  else { t with entries := t.entries ++ [(path, entry)] }

def erase (t : FileTree) (path : List String) : FileTree :=
  { t with entries := t.entries.filter (·.1 != path) }

/-- Adds an entry and every directory on the way to it. -/
def plant (t : FileTree) (path : List String) (entry : Entry) : FileTree :=
  let parents := (List.range path.length).map path.take
  let t := parents.foldl
    (fun t parent => if (t.find? parent).isSome then t else t.put parent .directory) t
  t.put path entry

/-- Nothing but the way to the working directory. -/
def bare (workingDirectory : List String) : FileTree :=
  plant ⟨[], workingDirectory⟩ workingDirectory .directory

/-- The most bytes that a name may have. -/
def nameLimit : Nat := 255

/-- The most bytes that a path may have. -/
def pathLimit : Nat := 4095

/-- What a directory holds under a name. -/
def lookup (t : FileTree) (directory : List String) (name : String) :
    Except FileError (Option Entry) :=
  if name.utf8ByteSize > nameLimit then .error .nameTooLong
  else .ok (t.find? (directory ++ [name]))

/-- The directory that a name leads to from another one. The root is its own
parent. -/
def enter (t : FileTree) (start : List String) (name : String) :
    Except FileError (List String) :=
  match name with
  | "." => .ok start
  | ".." => .ok start.dropLast
  | name => do
      match ← t.lookup start name with
      | none => throw .missing
      | some .directory => return start ++ [name]
      | some (.file _) => throw .notDirectory

/-- Where a path leads. -/
inductive Place where
  /-- A directory that the path does not name: the root, or one reached by
  dots. -/
  | dots
  /-- A name in a directory, which may or may not be there; `slash` tells
  whether a slash follows it. -/
  | name (directory : List String) (name : String) (slash : Bool)

/-- The pieces of a text between slashes. -/
def segments : List Char → List (List Char)
  | [] => [[]]
  | c :: rest =>
      if c = '/' then [] :: segments rest
      else match segments rest with
        | [] => [[c]]
        | first :: others => (c :: first) :: others

/-- The names on a path. Slashes that follow each other count as one. -/
def names (path : String) : List String :=
  ((segments path.toList).filter (!·.isEmpty)).map .ofList

/-- The way from the root to where a path begins. -/
def origin (t : FileTree) (path : String) : List String :=
  if path.toList.head? = some '/' then [] else t.workingDirectory

def resolve (t : FileTree) (path : String) : Except FileError Place :=
  if path.isEmpty then .error .missing
  else if path.toList.contains '\x00' then .error .nullInName
  else if path.utf8ByteSize > pathLimit then .error .nameTooLong
  else
    match (names path).reverse with
    | [] => .ok .dots
    | last :: before => do
        let directory ← (t.origin path ++ before.reverse).foldlM t.enter []
        if last = "." ∨ last = ".." then
          return .dots
        else
          return .name directory last (path.toList.getLast? = some '/')

def read (t : FileTree) (path : String) : Except FileError ByteArray := do
  match ← t.resolve path with
  | .dots => throw .isDirectory
  | .name directory name slash =>
      match ← t.lookup directory name with
      | none => throw .missing
      | some .directory => throw .isDirectory
      | some (.file content) => if slash then throw .notDirectory else return content

def write (t : FileTree) (path : String) (content : ByteArray) : Except FileError FileTree := do
  match ← t.resolve path with
  | .dots => throw .isDirectory
  | .name directory name slash =>
      if slash then
        throw .isDirectory
      match ← t.lookup directory name with
      | some .directory => throw .isDirectory
      | _ => return t.put (directory ++ [name]) (.file content)

def remove (t : FileTree) (path : String) : Except FileError FileTree := do
  match ← t.resolve path with
  | .dots => throw .isDirectory
  | .name directory name slash =>
      match ← t.lookup directory name with
      | none => throw .missing
      | some .directory => throw .isDirectory
      | some (.file _) =>
          if slash then throw .notDirectory else return t.erase (directory ++ [name])

/-- The operations on files, on a tree that they change. -/
def access : FileAccess (StateM FileTree) where
  read path := return (← get).read path
  write path content := do
    match (← get).write path content with
    | .ok t => set t; return .ok ()
    | .error error => return .error error
  remove path := do
    match (← get).remove path with
    | .ok t => set t; return .ok ()
    | .error error => return .error error

end FileTree

end MicroC
