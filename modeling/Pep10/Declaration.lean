import Pep10.Line.Basic

/-!
# Declarations

Some lines have no bytes and declare what a program relies on: a system call, or a device through
which it takes input or gives output.
-/

namespace Pep10

/-- Does a device take input or give output? -/
inductive DeviceKind where
  | input
  | output
  deriving DecidableEq

/-- A memory-mapped device. -/
structure Device where
  name : String
  kind : DeviceKind
  deriving DecidableEq

namespace LineKind

/-- The system call that a line declares. -/
def systemCall? : LineKind → Option String
  | .annotate .systemCall a => some a.display
  | _ => none

/-- The device that a line declares. -/
def device? : LineKind → Option Device
  | .annotate .input a => some ⟨a.display, .input⟩
  | .annotate .output a => some ⟨a.display, .output⟩
  | _ => none

end LineKind

/-- The system calls that the lines of a program declare. -/
def Program.systemCalls (program : Program) : List String :=
  program.filterMap (·.kind.systemCall?)

/-- The devices that the lines of a program declare. -/
def Program.devices (program : Program) : List Device :=
  program.filterMap (·.kind.device?)

end Pep10
