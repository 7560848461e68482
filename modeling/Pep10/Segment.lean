import Pep10.Section

/-!
# Segments

Neighbouring sections are loaded together when they allow the same accesses.  Zeroed sections
make up segments of their own.
-/

namespace Pep10

/-- A run of sections that are loaded together. -/
structure Segment where
  /-- The flags of the first section. -/
  flags : Flags
  /-- Is the first section zeroed? -/
  isZeroed : Bool
  /-- The positions of the sections, in order. -/
  sections : List Nat
  base : UInt16
  /-- The number of bytes in the output. -/
  fileSize : Nat
  /-- The number of addresses, those of zeroed sections included. -/
  memorySize : Nat
  deriving DecidableEq

/-- The number of bytes of a section in the output. -/
def Section.storedSize (s : Section) : Nat :=
  if s.isZeroed then 0 else s.bounds.byteCount

/-- A section that takes no addresses belongs to no segment. -/
def Section.isVacant (s : Section) : Bool :=
  s.bounds.extent = 0 && s.bounds.byteCount = 0

namespace Segment

/-- The segment of one section. -/
def single (index : Nat) (s : Section) : Segment where
  flags := s.flags
  isZeroed := s.isZeroed
  sections := [index]
  base := s.bounds.base
  fileSize := s.storedSize
  memorySize := s.bounds.byteCount

/-- A segment with one more section at its end. -/
def join (g : Segment) (index : Nat) (s : Section) : Segment :=
  { g with
    sections := g.sections ++ [index]
    base := if s.bounds.base < g.base then s.bounds.base else g.base
    fileSize := g.fileSize + s.storedSize
    memorySize := g.memorySize + s.bounds.byteCount }

/-- Can a section join a segment?  A zeroed section joins one without bytes, another section one
with bytes and the same permissions. -/
def admits (g : Segment) (s : Section) : Bool :=
  if s.isZeroed then g.fileSize = 0
  else g.fileSize ≠ 0 && g.flags.samePermissions s.flags

/-- The segments of some sections, with a segment that is still open before them. -/
def collect : (current : Option Segment) → List (Section × Nat) → List Segment
  | current, [] => current.toList
  | current, (s, index) :: rest =>
    if s.isVacant then collect current rest
    else
      match current with
      | none => collect (some (single index s)) rest
      | some g =>
        if g.admits s then collect (some (g.join index s)) rest
        else g :: collect (some (single index s)) rest

end Segment

/-- The segments of a list of sections. -/
def segments (sections : List Section) : List Segment :=
  Segment.collect none sections.zipIdx

/-- The positions of the sections with bytes in the output, segment by segment. -/
def storedSections (segments : List Segment) : List Nat :=
  (segments.filter (!·.isZeroed)).flatMap (·.sections)

end Pep10
