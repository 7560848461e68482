import Pep10.Assembly
import Pep10.Segment
import Pep10.Text.Rows

/-!
# Images

The two forms of the output.  A raw image holds the bytes from the lowest to the highest stored
address, each line at its address.  An object text lists the bytes of the sections in
hexadecimal.
-/

namespace Pep10

/-- Why a program has no raw image. -/
inductive ImageError where
  | outside (line : LineId) (name : String)
  | wraps
  | overlaps (address : Nat)
  deriving DecidableEq

/-- The text of an image error. -/
def ImageError.message : ImageError → String
  | .outside line name =>
    "object code for " ++ line.display ++ " lies outside section '" ++ name ++ "'"
  | .wraps => "raw binary output wraps past address 0xFFFF"
  | .overlaps address =>
    "raw binary output overlaps at address 0x" ++ Text.hexAtLeast 4 address

/-- Bytes at an address. -/
structure Piece where
  address : Nat
  bytes : List UInt8
  deriving DecidableEq

/-- The address after the last byte. -/
def Piece.stop (p : Piece) : Nat :=
  p.address + p.bytes.length

/-- The bytes one by one, with their addresses. -/
def Piece.cells (p : Piece) : List (Nat × UInt8) :=
  p.bytes.zipIdx.map fun (byte, i) => (p.address + i, byte)

namespace Assembly

/-- The code of a line at its address, unless the line has none. -/
def piece? (a : Assembly) (bytes : List UInt8) (name : String) (l : NumberedLine) :
    Except ImageError (Option Piece) :=
  match a.addresses.get? l.id, a.object.spans.get? l.id with
  | some place, some span =>
    match Text.slice? bytes span.start span.stop with
    | none => .error (.outside l.id name)
    | some [] => .ok none
    | some code => .ok (some ⟨place.address.toNat, code⟩)
  | _, _ => .ok none

/-- The code of the lines of a section. -/
def sectionPieces (a : Assembly) (index : Nat) : Except ImageError (List Piece) :=
  match a.sections[index]? with
  | none => .ok []
  | some s => do
    let found ← s.lines.mapM (a.piece? (a.sectionBytes index) s.name)
    return found.filterMap id

/-- The code of all stored lines, segment by segment. -/
def pieces (a : Assembly) (segments : List Segment) : Except ImageError (List Piece) := do
  let found ← (storedSections segments).mapM a.sectionPieces
  return found.flatten

end Assembly

/-- Bytes of an image that may have been set. -/
abbrev Cells := Array (Option UInt8)

/-- Set the byte at an address.  A byte is set only once. -/
def Cells.put (start : Nat) (cells : Cells) (cell : Nat × UInt8) : Except ImageError Cells :=
  match cells[cell.1 - start]? with
  | some (some _) => .error (.overlaps cell.1)
  | _ => .ok (cells.setIfInBounds (cell.1 - start) (some cell.2))

/-- The image of pieces of code, from the lowest address to the highest, with zeros between the
pieces. -/
def imageOfPieces (pieces : List Piece) : Except ImageError (List UInt8) :=
  match pieces with
  | [] => .ok []
  | p :: rest => do
    let start := rest.foldl (fun least q => min least q.address) p.address
    let stop := rest.foldl (fun greatest q => max greatest q.stop) p.stop
    if 0x10000 < stop then throw .wraps
    let cells ← (pieces.flatMap Piece.cells).foldlM (Cells.put start)
      (Array.replicate (stop - start) none)
    return cells.toList.map (·.getD 0)

namespace Assembly

/-- The raw image of a program. -/
def rawImage (a : Assembly) (segments : List Segment) : Except ImageError (List UInt8) := do
  imageOfPieces (← a.pieces segments)

/-- The base address of a section. -/
def baseOf (a : Assembly) (index : Nat) : UInt16 :=
  (a.sections[index]?.map (·.bounds.base)).getD 0

/-- The positions of the stored sections by increasing base address. -/
def storedByBase (a : Assembly) (segments : List Segment) : List Nat :=
  (storedSections segments).mergeSort fun i j => a.baseOf i ≤ a.baseOf j

/-- The tokens of the object text: the stored bytes and an end mark. -/
def objectTokens (a : Assembly) (segments : List Segment) : List String :=
  ((a.storedByBase segments).flatMap a.sectionBytes).map (Text.hex 2 ·.toNat) ++ ["zz"]

/-- The object text of a program, sixteen tokens in a row. -/
def objectText (a : Assembly) (segments : List Segment) : String :=
  Text.unlines ((Text.rows 15 (a.objectTokens segments)).map Text.spaced)

end Assembly

end Pep10
