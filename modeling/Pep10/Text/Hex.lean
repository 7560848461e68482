/-!
# Hexadecimal text

Numbers in base sixteen with upper-case digits: in a fixed number of digits, or in at least a
given number of them.
-/

namespace Pep10.Text

/-- The digit of a number below sixteen. -/
def hexDigit (n : Nat) : Char :=
  if n < 10 then Char.ofNat (48 + n) else Char.ofNat (55 + n)

/-- The last `width` digits of a number. -/
def hexDigits : (width n : Nat) → List Char
  | 0, _ => []
  | width + 1, n => hexDigits width (n / 16) ++ [hexDigit (n % 16)]

/-- The last `width` digits of a number, as a text. -/
def hex (width n : Nat) : String :=
  String.ofList (hexDigits width n)

/-- All the digits of a number, with zeros in front up to `width` digits. -/
def hexAtLeast (width n : Nat) : String :=
  hex (max width (n.log2 / 4 + 1)) n

/-- A sequence of bytes, two digits each. -/
def hexBytes (bytes : List UInt8) : String :=
  String.ofList (bytes.flatMap fun byte => hexDigits 2 byte.toNat)

end Pep10.Text
