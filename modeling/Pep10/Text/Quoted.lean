import Pep10.Text.Digits

/-!
# Quoted text

Texts between quotation marks, read up to the closing mark.  A backslash begins an escape.
-/

namespace Pep10.Text

/-- The character with a code point. -/
def charOfCode? (n : Nat) : Option Char :=
  if n.isValidChar then some (Char.ofNat n) else none

/-- The character an escape stands for, after its backslash, and the text that follows. -/
def unescape : List Char → Option (Char × List Char)
  | '\'' :: rest => some ('\'', rest)
  | '"' :: rest => some ('"', rest)
  | '\\' :: rest => some ('\\', rest)
  | 'n' :: rest => some ('\n', rest)
  | 'r' :: rest => some ('\r', rest)
  | 't' :: rest => some ('\t', rest)
  | '0' :: rest => some (Char.ofNat 0, rest)
  | 'x' :: c :: d :: rest => do
    let n ← ofDigits? 16 [c, d]
    return (Char.ofNat n, rest)
  | 'u' :: '\x7b' :: rest => do
    let (digits, rest) := rest.span fun c => (digitValue? c).isSome
    if digits.isEmpty || 6 < digits.length then none
    let n ← ofDigits? 16 digits
    match rest with
    | '\x7d' :: rest => return (← charOfCode? n, rest)
    | _ => none
  | _ => none

/-- The rest of a quoted text, after the characters `read`, the last of them first. -/
def quotedRest : (fuel : Nat) → (read : List Char) → List Char → Option (String × List Char)
  | 0, _, _ => none
  | _ + 1, _, [] => none
  | fuel + 1, read, c :: rest =>
    if c = '"' then some (String.ofList read.reverse, rest)
    else if c = '\\' then
      match unescape rest with
      | none => none
      | some (d, rest) => quotedRest fuel (d :: read) rest
    else quotedRest fuel (c :: read) rest

end Pep10.Text
