import Pep10.AssemblyError
import Pep10.Declaration
import Pep10.Symbol.Table

/-!
# Sections

A program is a list of named sections.  The lines go to the section opened last before them; a
section may be opened again, with the same flags.  The first section is there from the start.
While the lines are gone through, the open section takes note of the alignments and origins in it,
and the program of the system calls and devices that it declares.
-/

namespace Pep10

/-- The addresses a section was laid out at. -/
structure Bounds where
  low : UInt16 := 0
  high : UInt16 := 0
  /-- The first address with a byte of the section. -/
  base : UInt16 := 0
  /-- The number of addresses that the lines of the section take. -/
  byteCount : Nat := 0
  deriving DecidableEq

/-- The distance between the bounds. -/
def Bounds.extent (b : Bounds) : UInt16 :=
  b.high - b.low

/-- What is known of a section apart from its lines. -/
structure Descriptor extends Heading where
  bounds : Bounds := {}
  /-- The largest alignment asked for, at least one. -/
  alignment : UInt16 := 1
  /-- The number of lines that fix an address. -/
  originCount : Nat := 0
  deriving DecidableEq

/-- A named part of a program. -/
structure Section extends Descriptor where
  lines : List NumberedLine := []
  deriving DecidableEq

namespace Section

/-- A zeroed section has no bytes in the output. -/
def isZeroed (s : Section) : Bool :=
  s.flags.zeroed

/-- What a line changes in the descriptor of its section: it may ask for a larger alignment, or
fix an address. -/
def note (s : Section) : LineKind → Section
  | .align a =>
    let asked := a.count?.getD 1
    { s with alignment := if s.alignment < asked then asked else s.alignment }
  | .origin _ _ => { s with originCount := s.originCount + 1 }
  | _ => s

/-- The section with one more line at its end. -/
def push (s : Section) (l : NumberedLine) : Section :=
  { s with lines := s.lines ++ [l] }

end Section

/-- A program in sections. -/
structure SectionedProgram where
  sections : List Section
  /-- The system calls that the program declares, in order. -/
  systemCalls : List String := []
  /-- The devices that the program declares, in order. -/
  devices : List Device := []

/-- The lines so far in sections, and the section that is open. -/
structure Split extends SectionedProgram where
  /-- The positions of the sections, by name. -/
  positions : List (String × Nat)
  active : Nat := 0

namespace Split

/-- Before the first line there is one section. -/
def start (initial : Heading) : Split where
  sections := [{ toHeading := initial }]
  positions := [(initial.name, 0)]

/-- The section of a name, and its position. -/
def find? (s : Split) (name : String) : Option (Section × Nat) := do
  let (_, i) ← s.positions.find? (·.1 == name)
  let known ← s.sections[i]?
  return (known, i)

/-- The symbol a line declares has to be in the table, and to be defined only once. -/
def checkLabel (symbols : SymbolTable) (l : NumberedLine) : Except AssemblyError Unit :=
  match l.line.symbol? with
  | none => .ok ()
  | some i =>
    match symbols.get? i with
    | none => .error (.inconsistent (some l.id) .unknownSymbol)
    | some e => if e.isSingle then .ok () else .error (.multiplyDefined l.id e.name)

/-- Open the section a line names, if it names one. -/
def enter (s : Split) (l : NumberedLine) : Except AssemblyError Split :=
  match l.line.kind with
  | .opening h =>
    match s.find? h.name with
    | some (known, i) =>
      if known.flags = h.flags then .ok { s with active := i }
      else .error (.flagConflict l.id h.name known.flags h.flags)
    | none =>
      .ok { s with
        sections := s.sections ++ [{ toHeading := h }]
        positions := s.positions ++ [(h.name, s.sections.length)]
        active := s.sections.length }
  | _ => .ok s

/-- Change the open section. -/
def modifyActive (s : Split) (f : Section → Section) : Split :=
  { s with sections := s.sections.modify s.active f }

/-- Note what a line changes in the open section, and what it declares. -/
def note (s : Split) (kind : LineKind) : Split :=
  { s.modifyActive (·.note kind) with
    systemCalls := s.systemCalls ++ kind.systemCall?.toList
    devices := s.devices ++ kind.device?.toList }

/-- The sections after one more line. -/
def step (symbols : SymbolTable) (s : Split) (l : NumberedLine) : Except AssemblyError Split := do
  checkLabel symbols l
  let s ← s.enter l
  return (s.note l.line.kind).modifyActive (·.push l)

end Split

/-- Split a program into sections, of which `initial` is the first. -/
def Program.split (program : Program) (symbols : SymbolTable) (initial : Heading) :
    Except AssemblyError SectionedProgram := do
  let split ← program.numbered.foldlM (Split.step symbols) (.start initial)
  return split.toSectionedProgram

/-- The sections of a program. -/
def Program.sections (program : Program) (symbols : SymbolTable) (initial : Heading) :
    Except AssemblyError (List Section) := do
  return (← program.split symbols initial).sections

end Pep10
