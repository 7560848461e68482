/-!
# Paths

A path is a text whose components are divided by slashes.  Repeated slashes, and dots that stand
alone after the first component, count for nothing.
-/

namespace Pep10.Path

/-- The texts between the slashes of a path. -/
def parts (path : String) : List String :=
  path.splitOn "/"

/-- A text between slashes that counts for nothing. -/
def isFiller (part : String) : Bool :=
  part = "" || part = "."

/-- The parts of a path without those at its end that count for nothing.  The first part is
kept: it is empty when the path starts at the root. -/
def dropFillers : List String → List String
  | [] => []
  | first :: rest => first :: (rest.reverse.dropWhile isFiller).reverse

/-- The name of the file a path leads to.  The root and the two kinds of dots have no name. -/
def fileName? (path : String) : Option String :=
  match (dropFillers (parts path)).getLast? with
  | none => none
  | some name => if isFiller name || name = ".." then none else some name

/-- The path to the directory of a file.  The root and the empty path have none. -/
def parent? (path : String) : Option String :=
  match dropFillers (parts path) with
  | [] => none
  | [first] => if first = "" then none else some ""
  | first :: second :: rest =>
    match dropFillers (first :: second :: rest).dropLast with
    | [""] => some "/"
    | above => some ("/".intercalate above)

/-- A file in a directory.  The empty path is the current directory. -/
def join (directory name : String) : String :=
  if directory = "" then name
  else if directory.endsWith "/" then directory ++ name
  else directory ++ "/" ++ name

/-- A file name divided at its last dot, unless it has no dot after its first character. -/
def divide (name : String) : String × Option String :=
  match name.splitOn "." with
  | [] => (name, none)
  | [_] => (name, none)
  | ["", _] => (name, none)
  | pieces => (".".intercalate pieces.dropLast, pieces.getLast?)

/-- The name of the file a path leads to, up to its last dot. -/
def stem? (path : String) : Option String :=
  (fileName? path).map fun name => (divide name).1

/-- What follows the last dot in the name of the file a path leads to. -/
def extension? (path : String) : Option String :=
  (fileName? path).bind fun name => (divide name).2

end Pep10.Path
