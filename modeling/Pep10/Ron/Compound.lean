import Pep10.Ron.Reader

/-!
# Compound values

Lists, records with named fields, optional values and variants with values, made from the
readers of their parts.  A comma may follow the last part.
-/

namespace Pep10.Ron

variable {α β : Type}

/-- Read parts up to a closing token, with commas between them, and gather them. -/
def parts (close : String) (part : β → Reader β) : (fuel : Nat) → β → Reader β
  | 0, _ => failure
  | fuel + 1, gathered => do
    blanks
    if ← accept close then return gathered
    let gathered ← part gathered
    if ← comma then
      parts close part fuel gathered
    else
      expect close
      return gathered

/-- Read parts up to a closing token, with commas between them, and gather them. -/
def gather (close : String) (part : β → Reader β) (start : β) : Reader β := do
  parts close part ((← remaining).length + 1) start

/-- A list in brackets. -/
def list (item : Reader α) : Reader (List α) := do
  expect "["
  let found ← gather "]" (fun found => return (← item) :: found) []
  return found.reverse

/-- A record: its fields in any order, in parentheses, after its type name if that is given.
The function `field` reads the value of one field into what has been gathered. -/
def record (name : String) (start : β) (field : String → β → Reader β) : Reader β := do
  if (← remaining).head?.any isWordChar then
    unless (← word) = name do failure
  blanks
  expect "("
  gather ")" (fun gathered => do
    let key ← word
    blanks
    expect ":"
    blanks
    field key gathered) start

/-- The value of a field that must not have been given before. -/
def once (earlier : Option α) (value : Reader α) : Reader (Option α) := do
  if earlier.isSome then failure
  return some (← value)

/-- An optional value, marked as present or absent. -/
def option (value : Reader α) : Reader (Option α) := do
  if ← accept "None" then return none
  if ← accept "Some" then
    blanks
    if ← accept "(" then
      blanks
      let found ← value
      let _ ← comma
      expect ")"
      return some found
  if (← read).implicitSome then return some (← value)
  failure

/-- The start of the values of a variant. -/
def openPayload : Reader Unit := do
  blanks
  expect "("
  blanks

/-- The comma between two values of a variant. -/
def nextPayload : Reader Unit := do
  unless ← comma do failure

/-- The end of the values of a variant. -/
def closePayload : Reader Unit := do
  let _ ← comma
  expect ")"

/-- The one value of a variant. -/
def payload (value : Reader α) : Reader α := do
  openPayload
  let found ← value
  closePayload
  return found

/-- Take note of an extension. -/
def Extensions.enable? (e : Extensions) : String → Option Extensions
  | "implicit_some" => some { e with implicitSome := true }
  | "unwrap_newtypes" => some e
  | "unwrap_variant_newtypes" => some e
  | _ => none

/-- The names in an attribute, at least one. -/
def extensionNames : (fuel : Nat) → Extensions → Reader Extensions
  | 0, _ => failure
  | fuel + 1, e => do
    match e.enable? (← word) with
    | none => failure
    | some e =>
      let more ← comma
      if more && (← remaining).head?.any isWordChar then extensionNames fuel e
      else return e

/-- The attributes at the start of a text. -/
def attributes : (fuel : Nat) → Extensions → Reader Extensions
  | 0, _ => failure
  | fuel + 1, e => do
    blanks
    if ← accept "#" then
      for token in ["!", "[", "enable", "("] do
        blanks
        expect token
      blanks
      let e ← extensionNames ((← remaining).length + 1) e
      for token in [")", "]"] do
        blanks
        expect token
      attributes fuel e
    else return e

/-- A whole text: attributes, a value, and nothing after it. -/
def document (value : Reader α) : Reader α := do
  let e ← attributes ((← remaining).length + 1) {}
  let found ← withReader (fun _ => e) value
  blanks
  unless (← remaining).isEmpty do failure
  return found

/-- The value a text holds. -/
def read? (value : Reader α) (text : String) : Option α :=
  ((document value).run {} |>.run text.toList).map (·.1)

end Pep10.Ron
