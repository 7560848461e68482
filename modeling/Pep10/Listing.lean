import Pep10.Assembly
import Pep10.Line.Format
import Pep10.Text.Rows

/-!
# Listings

The lines of each section beside their addresses and their object code.  Code of more than three
bytes continues on rows of its own.
-/

namespace Pep10

/-- One row of a listing. -/
structure ListingRow where
  address : String := ""
  code : String := ""
  source : String := ""

/-- A row in its columns. -/
def ListingRow.display (r : ListingRow) : String :=
  Text.trimEnd (Text.padEnd 4 r.address ++ " " ++ Text.padEnd 6 r.code ++ " " ++ r.source)

namespace Assembly

/-- The object code of a line among the bytes of its section. -/
def lineBytes (a : Assembly) (bytes : List UInt8) (line : LineId) : List UInt8 :=
  match a.object.spans.get? line with
  | none => []
  | some span => (Text.slice? bytes span.start span.stop).getD []

/-- The rows of a line.  A line without an address shows its source only. -/
def lineRows (a : Assembly) (bytes : List UInt8) (symbols : SymbolTable) (l : NumberedLine) :
    List ListingRow :=
  let source := l.line.format symbols
  match a.addresses.get? l.id with
  | none => [{ source }]
  | some place =>
    let address := Text.hex 4 place.address.toNat
    match (Text.rows 2 (a.lineBytes bytes l.id)).map Text.hexBytes with
    | [] => [{ address, source }]
    | code :: more => { address, code, source } :: more.map fun code => { code }

/-- The row above the lines of a section. -/
def sectionHeader (s : Section) : String :=
  "; section " ++ s.name ++ " (" ++ s.flags.display ++ ") base 0x" ++
    Text.hex 4 s.bounds.base.toNat ++ s!" size {s.bounds.byteCount}"

/-- The rows of a section. -/
def sectionRows (a : Assembly) (symbols : SymbolTable) (s : Section) (index : Nat) :
    List String :=
  let bytes := a.sectionBytes index
  sectionHeader s :: (s.lines.flatMap (a.lineRows bytes symbols)).map ListingRow.display

/-- The rows of all sections, with an empty row between two of them. -/
def listingRows (a : Assembly) (symbols : SymbolTable) : List String :=
  a.sections.zipIdx.flatMap fun (s, index) =>
    let rows := a.sectionRows symbols s index
    if index = 0 then rows else "" :: rows

/-- The listing of a program. -/
def listing (a : Assembly) (symbols : SymbolTable) : String :=
  Text.unlines (a.listingRows symbols)

end Assembly

end Pep10
