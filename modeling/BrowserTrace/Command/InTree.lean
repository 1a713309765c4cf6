import BrowserTrace.Command.Run
import BrowserTrace.Files.Tree

/-! # Running the command in a file tree

With its file system given as a value, a whole run is a function: from a tree to a report and a
tree, in which at most the output file is new.
-/

namespace BrowserTrace.Command

/-- Writes an output file into a tree. -/
def OutputFile.write (file : OutputFile) (t : FileTree) : Written × FileTree :=
  match t.walk (PathText.parent file.path) with
  | .error cause => (.failed cause, t)
  | .ok (.file ..) => (.failed .notADirectory, t)
  | .ok _ =>
    match PathText.name? file.path with
    | none => (.noName, t)
    | some name =>
      match t.write (PathText.parent file.path) name file.contents.toUTF8 with
      | .error cause => (.failed cause, t)
      | .ok written => (.done, written)

/-- Runs the command in a tree. -/
def run (inv : Invocation) (t : FileTree) : Report × FileTree :=
  match plan inv t.toFiles with
  | .ended report => (report, t)
  | .writing file console messages =>
    let (written, t) := file.write t
    (conclude file console messages written, t)

end BrowserTrace.Command
