import Pep10.Instruction.Opcode
import Pep10.Layout.Placement

/-!
# Object code

The bytes of the lines of each section, one line after the other.  A symbol that has no value yet
leaves zeros in the place of its bytes, and a relocation.  Zeroed sections have no bytes.
-/

namespace Pep10

/-- The bytes of a line in its section: from `start` to before `stop`. -/
structure Span where
  index : Nat
  start : Nat
  stop : Nat
  deriving DecidableEq

/-- Bytes to be filled in when the value of a symbol becomes known. -/
structure Relocation where
  index : Nat
  offset : Nat
  width : UInt8
  symbol : String
  line : LineId
  deriving DecidableEq

/-- The `width` last digits of a number in base 256, the most significant first. -/
def toBigEndian : (width : Nat) → UInt64 → List UInt8
  | 0, _ => []
  | width + 1, value => toBigEndian width (value >>> 8) ++ [value.toUInt8]

/-- Does a number fit in a number of bytes? -/
def fitsWidth (value : UInt64) (width : UInt8) : Bool :=
  value.toNat < capacity width.toNat

/-- The bytes of an operand, or the name of a symbol that has no value. -/
inductive Encoding where
  | bytes (bytes : List UInt8)
  | unresolved (symbol : String)
  deriving DecidableEq

/-- The bytes of an operand of a given width.  The function `resolve` gives the values of
symbols. -/
def encodeOperand (resolve : SymbolRef → Option UInt64) (line : LineId) (width : UInt8) :
    Argument → Except AssemblyError Encoding
  | .literal l =>
    match l.value width with
    | .ok value => .ok (.bytes (toBigEndian width.toNat value))
    | .error e => .error (.unsupportedArgument line (.constant e))
  | .symbolic name symbol =>
    match resolve symbol with
    | none => .ok (.unresolved name)
    | some value =>
      if fitsWidth value width then .ok (.bytes (toBigEndian width.toNat value))
      else .error (.unsupportedArgument line (.symbolTooWide value name width))

/-- Bytes in a room for `room` of them, with zeros after them. -/
def fill (line : LineId) (room : Nat) (bytes : List UInt8) : Except AssemblyError (List UInt8) :=
  if bytes.length ≤ room then .ok (bytes ++ List.replicate (room - bytes.length) 0)
  else .error (.inconsistent (some line) (.overfull bytes.length room))

/-- The bytes of a line, and the place in it that waits for the value of a symbol. -/
structure LineCode where
  bytes : List UInt8
  pending? : Option (Nat × UInt8 × String) := none
  deriving DecidableEq

/-- An operand in a room of a line, `offset` bytes after the start of the line. -/
def placeOperand (line : LineId) (offset room : Nat) (width : UInt8) :
    Encoding → Except AssemblyError LineCode
  | .bytes bytes => do return { bytes := ← fill line room bytes }
  | .unresolved symbol =>
    .ok { bytes := List.replicate room 0, pending? := some (offset, width, symbol) }

/-- The opcode of an instruction on a line. -/
def lineOpcode (line : LineId) (m : Mnemonic) (mode : Option AddressingMode) :
    Except AssemblyError UInt8 :=
  match opcode m mode with
  | .ok op => .ok op
  | .error e => .error (.invalidInstruction line e)

/-- The bytes of a line that takes `size` of them. -/
def encodeLine (resolve : SymbolRef → Option UInt64) (l : NumberedLine) (size : Nat) :
    Except AssemblyError LineCode :=
  match l.line.kind with
  | .monadic m => do
    let op ← lineOpcode l.id m none
    return { bytes := ← fill l.id size [op] }
  | .dyadic m mode a => do
    let op ← lineOpcode l.id m mode
    let head ← fill l.id (min size 1) [op]
    let code ← placeOperand l.id 1 (size - 1) 2 (← encodeOperand resolve l.id 2 a)
    return { code with bytes := head ++ code.bytes }
  | .align _ => .ok { bytes := List.replicate size 0 }
  | .block _ => .ok { bytes := List.replicate size 0 }
  | .data .ascii a =>
    match a.bytes? with
    | some bytes => do return { bytes := ← fill l.id size bytes }
    | none => .error (.unsupportedArgument l.id .notText)
  | .data .byte a => do placeOperand l.id 0 size 1 (← encodeOperand resolve l.id 1 a)
  | .data .word a => do placeOperand l.id 0 size 2 (← encodeOperand resolve l.id 2 a)
  | _ => .error (.inconsistent (some l.id) .unaddressable)

/-- The code of some lines of a section. -/
structure SectionCode where
  bytes : List UInt8 := []
  relocations : List Relocation := []
  spans : List (LineId × Span) := []
  deriving DecidableEq

/-- The object code of a program. -/
structure ObjectCode where
  /-- The bytes of each section. -/
  buffers : List (List UInt8)
  relocations : List Relocation
  spans : LineTable Span

namespace Section

/-- The code of lines of a section from its byte `start` on.  Lines without an address are left
out. -/
def emitFrom (s : Section) (index : Nat) (addresses : LineTable Address)
    (resolve : SymbolRef → Option UInt64) :
    (start : Nat) → List NumberedLine → Except AssemblyError SectionCode
  | _, [] => .ok {}
  | start, l :: lines =>
    match addresses.get? l.id with
    | none => s.emitFrom index addresses resolve start lines
    | some a => do
      let stop := start + a.size.toNat
      if s.bounds.byteCount < stop then
        throw (.inconsistent (some l.id) (.overrun s.name stop s.bounds.byteCount))
      let code ← encodeLine resolve l a.size.toNat
      let rest ← s.emitFrom index addresses resolve stop lines
      let relocations := code.pending?.toList.map fun (offset, width, symbol) =>
        ⟨index, start + offset, width, symbol, l.id⟩
      return {
        bytes := code.bytes ++ rest.bytes
        relocations := relocations ++ rest.relocations
        spans := (l.id, ⟨index, start, stop⟩) :: rest.spans }

/-- The code of a section, which its lines have to fill. -/
def emit (s : Section) (index : Nat) (addresses : LineTable Address)
    (resolve : SymbolRef → Option UInt64) : Except AssemblyError SectionCode := do
  if s.isZeroed then
    let placed := s.lines.filter fun l => addresses.contains l.id
    return { spans := placed.map fun l => (l.id, ⟨index, 0, 0⟩) }
  else
    let code ← s.emitFrom index addresses resolve 0 s.lines
    if code.bytes.length = s.bounds.byteCount then return code
    else throw (.inconsistent none (.shortfall s.name code.bytes.length s.bounds.byteCount))

end Section

/-- The object code of sections that have been laid out. -/
def emit (sections : List Section) (addresses : LineTable Address)
    (resolve : SymbolRef → Option UInt64) : Except AssemblyError ObjectCode := do
  let codes ← sections.zipIdx.mapM fun (s, index) => s.emit index addresses resolve
  return {
    buffers := codes.map (·.bytes)
    relocations := codes.flatMap (·.relocations)
    spans := .ofInserts (codes.flatMap (·.spans)) }

end Pep10
