import Pep10.Assembly
import Pep10.Json
import Pep10.Line.Format
import Pep10.Segment

/-!
# Layout reports

Where the sections, their lines and the segments of a program are, and which symbols are missing.
-/

namespace Pep10

/-- A line that has an address. -/
structure LineReport where
  /-- The number of the line, from one. -/
  line : Nat
  address : UInt16
  size : UInt16
  source : String

/-- A section and its lines. -/
structure SectionReport where
  name : String
  flags : Flags
  alignment : UInt16
  bounds : Bounds
  lines : List LineReport

/-- Bytes that wait for a symbol, by the name of their section. -/
structure RelocationReport where
  name : String
  offset : Nat
  width : UInt8
  symbol : String

/-- The layout of a program. -/
structure Report where
  sections : List SectionReport
  segments : List Segment
  relocations : List RelocationReport

namespace Assembly

/-- The report on one line. -/
def lineReport? (a : Assembly) (symbols : SymbolTable) (l : NumberedLine) : Option LineReport :=
  (a.addresses.get? l.id).map fun place =>
    { line := l.id + 1
      address := place.address
      size := place.size
      source := Text.trim (l.line.format symbols) }

/-- The report on one section. -/
def sectionReport (a : Assembly) (symbols : SymbolTable) (s : Section) : SectionReport where
  name := s.name
  flags := s.flags
  alignment := s.alignment
  bounds := s.bounds
  lines := s.lines.filterMap (a.lineReport? symbols)

/-- The report on one relocation. -/
def relocationReport (a : Assembly) (r : Relocation) : RelocationReport where
  name := (a.sections[r.index]?.map (·.name)).getD ""
  offset := r.offset
  width := r.width
  symbol := r.symbol

/-- The report on an assembled program. -/
def report (a : Assembly) (symbols : SymbolTable) (segments : List Segment) : Report where
  sections := a.sections.map (a.sectionReport symbols)
  segments
  relocations := a.object.relocations.map a.relocationReport

end Assembly

/-- The text of a line report. -/
def LineReport.toJson (r : LineReport) : Json :=
  .record [
    ("line", .number r.line),
    ("address", .number r.address.toNat),
    ("size", .number r.size.toNat),
    ("source", .text r.source)]

/-- The text of a section report. -/
def SectionReport.toJson (r : SectionReport) : Json :=
  .record [
    ("name", .text r.name),
    ("flags", .text r.flags.display),
    ("alignment", .number r.alignment.toNat),
    ("low_address", .number r.bounds.low.toNat),
    ("high_address", .number r.bounds.high.toNat),
    ("base_address", .number r.bounds.base.toNat),
    ("byte_count", .number r.bounds.byteCount),
    ("lines", .list (r.lines.map LineReport.toJson))]

/-- The flags one by one. -/
def Flags.toJson (f : Flags) : Json :=
  .record [
    ("r", .bool f.readable),
    ("w", .bool f.writable),
    ("x", .bool f.executable),
    ("z", .bool f.zeroed)]

/-- The text of a segment. -/
def Segment.toJson (g : Segment) : Json :=
  .record [
    ("flags", g.flags.toJson),
    ("is_bss", .bool g.isZeroed),
    ("sections", .list (g.sections.map .number)),
    ("base_address", .number g.base.toNat),
    ("file_size", .number g.fileSize),
    ("memory_size", .number g.memorySize)]

/-- The text of a relocation report. -/
def RelocationReport.toJson (r : RelocationReport) : Json :=
  .record [
    ("section", .text r.name),
    ("offset", .number r.offset),
    ("width", .number r.width.toNat),
    ("symbol", .text r.symbol)]

/-- The text of a report. -/
def Report.toJson (r : Report) : Json :=
  .record [
    ("sections", .list (r.sections.map SectionReport.toJson)),
    ("segments", .list (r.segments.map Segment.toJson)),
    ("relocations", .list (r.relocations.map RelocationReport.toJson))]

end Pep10
