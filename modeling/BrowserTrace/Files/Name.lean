/-! # The name at the end of a path

A path ends in a name unless its last step stays where it is or goes up. Slashes at the end, and
steps behind them that stay, do not count.
-/

namespace BrowserTrace.PathText

/-- A path backwards, without slashes and steps that stay at its end. -/
def stripEnd : List Char → List Char
  | '/' :: rest => stripEnd rest
  | '.' :: '/' :: rest => stripEnd rest
  | cs => cs

/-- A path without slashes and steps that stay at its end. -/
def trimEnd (path : String) : String := String.ofList (stripEnd path.toList.reverse).reverse

/-- The last name of a path, if it ends in one. -/
def name? (path : String) : Option String :=
  let backwards := stripEnd path.toList.reverse
  match String.ofList (backwards.takeWhile (· ≠ '/')).reverse with
  | "" | "." | ".." => none
  | name => some name

/-- Whether a name has an extension: a point that is not its first character. -/
def hasExtension (name : String) : Bool := (name.toList.drop 1).contains '.'

/-- The path of the directory that the last name of a path is looked up in. -/
def parent (path : String) : String :=
  match (stripEnd path.toList.reverse).dropWhile (· ≠ '/') with
  | [] => "."
  | rest =>
    match stripEnd rest with
    | [] => "/"
    | rest => String.ofList rest.reverse

end BrowserTrace.PathText
