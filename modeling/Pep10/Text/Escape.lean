import Pep10.Text.Hex

/-!
# Escaped bytes

Bytes between quotation marks.  Printable characters stand for themselves, apart from the
quotation mark and the backslash; every other byte is escaped.
-/

namespace Pep10.Text

/-- One byte between two `quote` marks. -/
def escapeByte (quote byte : UInt8) : List Char :=
  if byte = 0x0A then ['\\', 'n']
  else if byte = 0x09 then ['\\', 't']
  else if byte = 0x0D then ['\\', 'r']
  else if byte = 0x5C then ['\\', '\\']
  else if byte = quote then ['\\', Char.ofNat byte.toNat]
  else if 0x20 ≤ byte ∧ byte ≤ 0x7E then [Char.ofNat byte.toNat]
  else '\\' :: 'x' :: hexDigits 2 byte.toNat

/-- Bytes between two `quote` marks. -/
def quoteBytes (quote : UInt8) (bytes : List UInt8) : String :=
  let mark := Char.ofNat quote.toNat
  String.ofList (mark :: (bytes.flatMap (escapeByte quote) ++ [mark]))

end Pep10.Text
