import Pep10.Ron.Reader
import Pep10.Text.Quoted

/-!
# Literals

Integers in four bases, characters and texts.  Texts are quoted with escapes, or raw.
-/

namespace Pep10.Ron

export Text (digitValue? ofDigits? unescape quotedRest)

/-- The base a number is written in, marked in front of its digits. -/
def base : Reader Nat := do
  if ← accept "0x" then return 16
  if ← accept "0b" then return 2
  if ← accept "0o" then return 8
  return 10

/-- A number without a sign.  Underscores may stand after the first digit. -/
def natural : Reader Nat := do
  let base ← base
  let (digits, rest) := (← remaining).span fun c => (digitValue? c).isSome || c = '_'
  if digits.isEmpty || digits.head? = some '_' then failure
  continueWith rest
  match ofDigits? base (digits.filter (· ≠ '_')) with
  | some n => return n
  | none => failure

/-- A number up to 65535. -/
def uint16 : Reader UInt16 := do
  let n ← natural
  if n < 65536 then return UInt16.ofNat n else failure

/-- A number of thirty-two bits, which may have a sign. -/
def int32 : Reader Int32 := do
  let negative ← accept "-"
  unless negative do let _ ← accept "+"
  let n : Int ← natural
  let n := if negative then -n else n
  if -2147483648 ≤ n ∧ n ≤ 2147483647 then return Int32.ofInt n else failure

/-- A truth value. -/
def bool : Reader Bool := do
  if ← accept "true" then return true
  if ← accept "false" then return false
  failure

/-- The rest of a raw text, which ends at a quotation mark with `marks` hash signs. -/
def rawRest (marks : List Char) : (read : List Char) → List Char → Option (String × List Char)
  | _, [] => none
  | read, c :: rest =>
    match (if c = '"' then marks.isPrefixOf? rest else none) with
    | some rest => some (String.ofList read.reverse, rest)
    | none => rawRest marks (c :: read) rest

/-- A quoted or a raw text. -/
def string : Reader String := do
  let found ←
    match ← remaining with
    | '"' :: rest => pure (quotedRest (rest.length + 1) [] rest)
    | 'r' :: rest =>
      match rest.span (· = '#') with
      | (marks, '"' :: rest) => pure (rawRest marks [] rest)
      | _ => failure
    | _ => failure
  match found with
  | some (text, rest) => continueWith rest; return text
  | none => failure

/-- A character between quotation marks. -/
def char : Reader Char := do
  let found ←
    match ← remaining with
    | '\'' :: '\\' :: rest => pure (unescape rest)
    | '\'' :: '\'' :: _ => failure
    | '\'' :: c :: rest => pure (some (c, rest))
    | _ => failure
  match found with
  | some (c, '\'' :: rest) => continueWith rest; return c
  | _ => failure

end Pep10.Ron
