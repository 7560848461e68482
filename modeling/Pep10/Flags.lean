/-!
# Section flags

A section may be readable, writable and executable; a zeroed section occupies addresses but has
no bytes in the output.
-/

namespace Pep10

/-- The flags of a section. -/
structure Flags where
  readable : Bool := false
  writable : Bool := false
  executable : Bool := false
  zeroed : Bool := false
  deriving DecidableEq

namespace Flags

/-- The flags of a section that is stored and open to every access. -/
def rwx : Flags :=
  ⟨true, true, true, false⟩

/-- Add the flag of one letter, in either case. -/
def add? (f : Flags) (c : Char) : Option Flags :=
  match c.toLower with
  | 'r' => some { f with readable := true }
  | 'w' => some { f with writable := true }
  | 'x' => some { f with executable := true }
  | 'z' => some { f with zeroed := true }
  | _ => none

/-- The flags a text names, in any order and any number of times. -/
def parse? (text : String) : Option Flags :=
  text.toList.foldlM add? {}

/-- The letters of the flags that are set. -/
def display (f : Flags) : String :=
  String.ofList <|
    [(f.readable, 'r'), (f.writable, 'w'), (f.executable, 'x'), (f.zeroed, 'z')].filterMap
      fun (set, letter) => if set then some letter else none

/-- Do two sections allow the same accesses? -/
def samePermissions (f g : Flags) : Bool :=
  f.readable = g.readable && f.writable = g.writable && f.executable = g.executable

end Flags

/-- The name and the flags that a section is opened with. -/
structure Heading where
  name : String
  flags : Flags
  deriving DecidableEq

/-- The section of programs that open none. -/
def Heading.text : Heading :=
  ⟨".text", .rwx⟩

end Pep10
