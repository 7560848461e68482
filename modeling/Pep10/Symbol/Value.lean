/-!
# Symbol values

A symbol stands for a constant, for a place in memory, or for another symbol, which may live in
another table.  Tables are told apart by their identifiers, entries by their positions.
-/

namespace Pep10

/-- Tells the symbol tables of one run apart. -/
abbrev TableId := Nat

/-- The position of an entry in its table. -/
abbrev SymbolId := Nat

/-- An entry of some table. -/
structure SymbolRef where
  table : TableId
  entry : SymbolId
  deriving DecidableEq

/-- What stands at a labelled place. -/
inductive SymbolKind where
  | code
  | object
  deriving DecidableEq

/-- A bit pattern of which only the bits in the mask count. -/
structure MaskedBits where
  byteCount : UInt8
  bits : UInt64
  mask : UInt64
  deriving DecidableEq

/-- The number a masked pattern denotes. -/
def MaskedBits.value (c : MaskedBits) : UInt64 :=
  c.bits &&& c.mask

/-- A sixteen-bit constant. -/
def MaskedBits.word (value : UInt64) : MaskedBits :=
  ⟨2, value, 0xFFFF⟩

/-- A place in memory: `size` bytes at `address`, and a displacement from there. -/
structure Location where
  size : UInt16
  /-- The number of bytes of a pointer to the place. -/
  addressWidth : UInt16
  address : UInt16
  offset : UInt16
  kind : SymbolKind
  deriving DecidableEq

/-- The place of `size` bytes at an address. -/
def Location.at (address size : UInt16) (kind : SymbolKind) : Location :=
  ⟨size, 2, address, 0, kind⟩

/-- What a symbol stands for. -/
inductive SymbolValue where
  | empty
  | constant (bits : MaskedBits)
  | location (place : Location)
  /-- An entry of the same table. -/
  | internal (entry : SymbolId)
  /-- An entry of another table. -/
  | external (target : SymbolRef)
  deriving DecidableEq

namespace SymbolValue

/-- The number of bytes of the thing a symbol stands for. -/
def size : SymbolValue → Nat
  | .empty => 0
  | .constant c => c.byteCount.toNat
  | .location l => l.size.toNat
  | .internal _ => 2
  | .external _ => 2

/-- The kind of a labelled place. -/
def kind? : SymbolValue → Option SymbolKind
  | .location l => some l.kind
  | _ => none

/-- Is the value still unknown? -/
def isEmpty : SymbolValue → Bool
  | .empty => true
  | _ => false

end SymbolValue

end Pep10
