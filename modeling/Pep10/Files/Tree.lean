import Pep10.Files.Path
import Pep10.Files.System

/-!
# File trees

Files held in memory, as they are seen from a working directory.  A directory is there as soon as
a file is in it.  The working directory and the directories above it, up to the root, are always
there.
-/

namespace Pep10

/-- Where a route starts: at a directory some levels above the working directory, or at the
root. -/
inductive Route.Start where
  | above (levels : Nat)
  | root
  deriving DecidableEq

/-- A way down through named directories. -/
structure Route where
  start : Route.Start := .above 0
  names : List String := []
  deriving DecidableEq

namespace Route

/-- The route to a name in a directory. -/
def down (r : Route) (name : String) : Route :=
  { r with names := r.names ++ [name] }

/-- The route to the directory above.  The root is above itself. -/
def up : Route → Route
  | ⟨.above levels, []⟩ => ⟨.above (levels + 1), []⟩
  | ⟨.root, []⟩ => ⟨.root, []⟩
  | ⟨start, names⟩ => ⟨start, names.dropLast⟩

/-- Does a route pass through a directory on its way down? -/
def passes (r directory : Route) : Bool :=
  r.start = directory.start && directory.names.length < r.names.length &&
    directory.names.isPrefixOf r.names

end Route

/-- Files by the routes to them, in any order. -/
structure FileTree where
  files : List (Route × ByteArray) := []

namespace FileTree

/-- The contents of a file. -/
def get? (t : FileTree) (r : Route) : Option ByteArray :=
  (t.files.find? (·.1 == r)).map (·.2)

/-- Is there a directory? -/
def hasDirectory (t : FileTree) (r : Route) : Bool :=
  r.names.isEmpty || t.files.any fun (file, _) => file.passes r

/-- The tree with new contents for a file. -/
def put (t : FileTree) (r : Route) (bytes : ByteArray) : FileTree :=
  ⟨t.files.filter (·.1 != r) ++ [(r, bytes)]⟩

/-- The most bytes in a name. -/
def maxNameSize : Nat := 255

/-- The most bytes in a path. -/
def maxPathSize : Nat := 4095

/-- Follow the parts of a path from a place.  All but the last have to lead to directories. -/
def follow (t : FileTree) : (here : Route) → List String → Except SystemError Route
  | here, [] => .ok here
  | here, part :: rest =>
    if !t.hasDirectory here then
      .error (if (t.get? here).isSome then .notDirectory else .notFound)
    else if Path.isFiller part then t.follow here rest
    else if part = ".." then t.follow here.up rest
    else if maxNameSize < part.utf8ByteSize then .error .nameTooLong
    else t.follow (here.down part) rest

/-- The place a path leads to, from the root or from the working directory.  The empty path
leads nowhere. -/
def locate (t : FileTree) (path : String) : Except SystemError Route :=
  if path = "" then .error .notFound
  else if maxPathSize < path.utf8ByteSize then .error .nameTooLong
  else t.follow { start := if path.startsWith "/" then .root else .above 0 } (Path.parts path)

/-- Read a file of the tree. -/
def read (t : FileTree) (path : String) : Except SystemError ByteArray := do
  let route ← t.locate path
  match t.get? route with
  | some bytes => return bytes
  | none => throw (if t.hasDirectory route then .isDirectory else .notFound)

/-- Write a file of the tree.  Its directory has to be there. -/
def write (t : FileTree) (path : String) (bytes : ByteArray) : Except SystemError FileTree := do
  let route ← t.locate path
  if t.hasDirectory route then throw .isDirectory
  else return t.put route bytes

/-- The files under the working directory. -/
def workingFiles (t : FileTree) : List (List String × ByteArray) :=
  t.files.filterMap fun (r, bytes) => if r.start = .above 0 then some (r.names, bytes) else none

/-- The tree with some files under the working directory. -/
def ofWorkingFiles (files : List (List String × ByteArray)) : FileTree :=
  ⟨files.map fun (names, bytes) => (⟨.above 0, names⟩, bytes)⟩

/-- The files of a tree that is part of a state. -/
def system : FileSystem (StateM FileTree) where
  read path := return (← get).read path
  write path bytes := do
    match (← get).write path bytes with
    | .ok t => set t; return .ok ()
    | .error e => return .error e

end FileTree

end Pep10
