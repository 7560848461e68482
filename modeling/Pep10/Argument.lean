import Pep10.Symbol.Value
import Pep10.Text.Escape

/-!
# Arguments

The operand of an instruction or a directive is a literal or a symbol.  A literal has a text, a
value in a number of bytes, and stands for a count where a directive needs one.
-/

namespace Pep10

/-- An operand that is its own value. -/
inductive Literal where
  | decimal (value : Int32)
  | hexadecimal (value : UInt16)
  | character (code : UInt8)
  | text (bytes : List UInt8)
  deriving DecidableEq

/-- An operand. -/
inductive Argument where
  | literal (value : Literal)
  | symbolic (name : String) (symbol : SymbolRef)
  deriving DecidableEq

/-- Why a literal has no value in a number of bytes. -/
inductive ArgumentError where
  | outOfRange (value : Int) (width : UInt8)
  | textTooLong (length : Nat) (width : UInt8)
  deriving DecidableEq

/-- The text of an argument error. -/
def ArgumentError.message : ArgumentError → String
  | .outOfRange value width => s!"value {value} does not fit in {width} byte(s)"
  | .textTooLong length width => s!"string of {length} bytes does not fit in {width} byte(s)"

/-- How many numbers fit in `n` bytes. -/
def capacity : (n : Nat) → Nat
  | 0 => 1
  | n + 1 => 256 * capacity n

/-- The number of bits of a width, which counts as at least one and at most eight bytes. -/
def bitsOfWidth (width : UInt8) : UInt64 :=
  8 * (if width = 0 then 1 else if 8 < width then 8 else width).toUInt64

/-- The bits of a width. -/
def maskOfWidth (width : UInt8) : UInt64 :=
  if bitsOfWidth width < 64 then 1 <<< bitsOfWidth width - 1 else 0xFFFFFFFFFFFFFFFF

/-- The least signed number of a width. -/
def leastOfWidth (width : UInt8) : Int64 :=
  -(1 <<< (bitsOfWidth width - 1)).toInt64

/-- The word whose last bytes are the given ones. -/
def ofBigEndian (bytes : List UInt8) : UInt64 :=
  bytes.foldl (fun word byte => word <<< 8 ||| byte.toUInt64) 0

namespace Literal

/-- The literal as it appears in source. -/
def display : Literal → String
  | .decimal value => toString value.toInt
  | .hexadecimal value => "0x" ++ Text.hex 4 value.toNat
  | .character code => Text.quoteBytes 0x27 [code]
  | .text bytes => Text.quoteBytes 0x22 bytes

/-- The value of a literal in `width` bytes.  A decimal literal may be signed or unsigned, and
the bytes of a text are the digits of its value. -/
def value (width : UInt8) : Literal → Except ArgumentError UInt64
  | .decimal n =>
    let mask := maskOfWidth width
    if n.toInt64 < leastOfWidth width ∨ mask.toInt64 < n.toInt64 then
      .error (.outOfRange n.toInt width)
    else .ok (n.toInt64.toUInt64 &&& mask)
  | .hexadecimal n =>
    if maskOfWidth width < n.toUInt64 then .error (.outOfRange n.toNat width)
    else .ok n.toUInt64
  | .character code => .ok code.toUInt64
  | .text bytes =>
    if width.toNat < bytes.length then .error (.textTooLong bytes.length width)
    else .ok (ofBigEndian bytes)

/-- The count a literal stands for, up to 65535. -/
def count? : Literal → Option UInt16
  | .decimal n =>
    if 0 ≤ n.toInt ∧ n.toInt < 65536 then some (UInt16.ofNat n.toInt.toNat) else none
  | .hexadecimal n => some n
  | .character code => some code.toUInt16
  | .text _ => none

end Literal

namespace Argument

/-- The operand as it appears in source. -/
def display : Argument → String
  | .literal l => l.display
  | .symbolic name _ => name

/-- The symbol an operand names. -/
def symbol? : Argument → Option SymbolRef
  | .literal _ => none
  | .symbolic _ symbol => some symbol

/-- The bytes of a text operand. -/
def bytes? : Argument → Option (List UInt8)
  | .literal (.text bytes) => some bytes
  | _ => none

/-- The value of an operand in `width` bytes.  A symbol has no value of its own. -/
def constant (width : UInt8) : Argument → Except ArgumentError (Option UInt64)
  | .literal l => (l.value width).map some
  | .symbolic _ _ => .ok none

/-- The count an operand stands for. -/
def count? : Argument → Option UInt16
  | .literal l => l.count?
  | .symbolic _ _ => none

end Argument

end Pep10
