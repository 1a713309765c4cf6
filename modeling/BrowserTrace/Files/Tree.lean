import BrowserTrace.Files

/-! # A file system as a value

A `FileTree` holds regular files, each under the names that lead to it: from the working directory,
where relative paths begin, or from the root, whose name `/` then comes first. The working directory
lies directly below the root, which has no name for it. There are the directories that some file lies
in, and those that are listed. A path is walked name by name: an empty name and `.` stay where they
are, `..` goes up, and nothing lies inside a file.
-/

namespace BrowserTrace

/-- Regular files by the names that lead to them, and directories that no file need lie in. -/
structure FileTree where
  files : List (List String × ByteArray)
  directories : List (List String) := []

namespace FileTree

/-- The names of the root. -/
def root : List String := ["/"]

/-- The names of the working directory. -/
def workingDirectory : List String := []

/-- Where a walk has come to. -/
inductive Place where
  | directory (names : List String)
  | file (names : List String) (contents : ByteArray)

/-- The contents of the file under some names. -/
def lookup (t : FileTree) (names : List String) : Option ByteArray := t.files.lookup names

/-- Whether a directory has these names. -/
def hasDirectory (t : FileTree) (names : List String) : Bool :=
  names == workingDirectory || names == root || t.directories.any names.isPrefixOf ||
    t.files.any fun file => names.isPrefixOf file.1 && names ≠ file.1

/-- The names of the directory above one; there is none above the root. -/
def above (names : List String) : List String :=
  if names = workingDirectory ∨ names = root then root else names.dropLast

/-- The longest name that a file can have, in bytes. -/
def maxNameLength : Nat := 255

/-- The longest path, in bytes. -/
def maxPathLength : Nat := 4095

/-- What a name leads to from a directory. -/
def child (t : FileTree) (names : List String) (name : String) : Except FileError Place :=
  if maxNameLength < name.utf8ByteSize then .error .nameTooLong
  else
    match t.lookup (names ++ [name]) with
    | some contents => .ok (.file (names ++ [name]) contents)
    | none =>
      if t.hasDirectory (names ++ [name]) then .ok (.directory (names ++ [name]))
      else .error .noSuchFile

/-- One name of a walk. -/
def step (t : FileTree) (here : Place) (name : String) : Except FileError Place :=
  match here with
  | .file .. => .error .notADirectory
  | .directory names =>
    if name = "" ∨ name = "." then .ok (.directory names)
    else if name = ".." then .ok (.directory (above names))
    else t.child names name

/-- The names of a path. -/
def pathNames (path : String) : List String :=
  (path.toList.splitOn '/').map String.ofList

/-- Walks a path. -/
def walk (t : FileTree) (path : String) : Except FileError Place :=
  if path.toList.contains '\x00' then .error .nulInPath
  else if path = "" then .error .noSuchFile
  else if maxPathLength < path.utf8ByteSize then .error .nameTooLong
  else
    let start := if path.toList.head? = some '/' then root else workingDirectory
    (pathNames path).foldlM t.step (.directory start)

/-- The size that a directory shows. -/
def directorySize : Nat := 4096

/-- What stands at a path. -/
def info (t : FileTree) (path : String) : Except FileError FileInfo :=
  (t.walk path).map fun
    | .directory _ => { size := directorySize, isFile := false }
    | .file _ contents => { size := contents.size, isFile := true }

/-- The contents of the file at a path. -/
def read (t : FileTree) (path : String) : Except FileError ByteArray := do
  match ← t.walk path with
  | .directory _ => .error .isADirectory
  | .file _ contents => .ok contents

/-- The tree as a program sees it. -/
def toFiles (t : FileTree) : Files := { info := t.info, read := t.read }

/-- Puts a file in its place; it replaces one that is there. -/
def insert (t : FileTree) (names : List String) (contents : ByteArray) : FileTree :=
  { t with files := (names, contents) :: t.files.filter (·.1 ≠ names) }

/-- Writes a file into a directory, at once or not at all. -/
def write (t : FileTree) (directory name : String) (contents : ByteArray) :
    Except FileError FileTree := do
  match ← t.walk directory with
  | .file .. => .error .notADirectory
  | .directory names =>
    match t.child names name with
    | .ok (.file names _) => .ok (t.insert names contents)
    | .ok _ => .error .isADirectory
    | .error .noSuchFile => .ok (t.insert (names ++ [name]) contents)
    | .error error => .error error

end FileTree

end BrowserTrace
