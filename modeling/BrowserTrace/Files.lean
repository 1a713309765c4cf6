/-! # What a program sees of a file system

Reading needs two questions about a path: what is there, and what bytes does it hold. `Files` is any
file system that answers them. The answers are values, so a program over `Files` is a function.
-/

namespace BrowserTrace

/-- Why a path cannot be used. -/
inductive FileError where
  | noSuchFile
  | notADirectory
  | isADirectory
  | nameTooLong
  | nulInPath
  | notUtf8
  | other (text : String)
deriving DecidableEq, Repr

namespace FileError

/-- The text of an error, with the system's number where the system reports it. -/
def message : FileError → String
  | noSuchFile => "No such file or directory (os error 2)"
  | notADirectory => "Not a directory (os error 20)"
  | isADirectory => "Is a directory (os error 21)"
  | nameTooLong => "File name too long (os error 36)"
  | nulInPath => "file name contained an unexpected NUL byte"
  | notUtf8 => "stream did not contain valid UTF-8"
  | other text => text

end FileError

/-- What stands at a path: its size, and whether it is a regular file. -/
structure FileInfo where
  size : Nat
  isFile : Bool
deriving DecidableEq, Repr

/-- The answers of a file system. -/
structure Files where
  info : String → Except FileError FileInfo
  read : String → Except FileError ByteArray

namespace Files

/-- Whether a regular file stands at the path. -/
def isFile (files : Files) (path : String) : Bool :=
  match files.info path with
  | .ok info => info.isFile
  | .error _ => false

/-- The text that bytes are, which must be UTF-8. -/
def textOf (bytes : ByteArray) : Except FileError String :=
  match String.fromUTF8? bytes with
  | some text => .ok text
  | none => .error .notUtf8

/-- The text of a file. -/
def readText (files : Files) (path : String) : Except FileError String :=
  match files.read path with
  | .ok bytes => textOf bytes
  | .error error => .error error

end Files

end BrowserTrace
