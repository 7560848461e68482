import Pep10.Document.Basic
import Pep10.Ron.Compound
import Pep10.Ron.Literal

/-!
# Reading documents

The text form of documents: a record of lines, each a record of an operation and optionally a
symbol and a comment.
-/

namespace Pep10

open Ron

/-- Reads a mnemonic. -/
def Mnemonic.reader : Reader Mnemonic := do
  match Mnemonic.ofName? (← Ron.word) with
  | some m => return m
  | none => failure

/-- Reads an addressing mode or the word for none. -/
def AddressingMode.reader : Reader (Option AddressingMode) := do
  match ← Ron.word with
  | "none" => return none
  | name =>
    match AddressingMode.ofName? name with
    | some mode => return some mode
    | none => failure

/-- Reads an operand. -/
def Operand.reader : Reader Operand := do
  match ← Ron.word with
  | "Dec" => return .decimal (← payload int32)
  | "Hex" => return .hexadecimal (← payload uint16)
  | "Char" => return .character (← payload char)
  | "Str" => return .text (← payload string)
  | "Sym" => return .symbol (← payload string)
  | _ => failure

/-- Reads an operation. -/
def Operation.reader : Reader Operation := do
  match ← Ron.word with
  | "Blank" => return .blank
  | "Comment" => return .comment
  | "Unary" => return .unary (← payload Mnemonic.reader)
  | "NonUnary" =>
    openPayload
    let mnemonic ← Mnemonic.reader
    nextPayload
    let operand ← Operand.reader
    nextPayload
    let mode ← AddressingMode.reader
    closePayload
    return .nonUnary mnemonic operand mode
  | "Align" => return .align (← payload Operand.reader)
  | "Ascii" => return .ascii (← payload string)
  | "Byte" => return .byte (← payload Operand.reader)
  | "Word" => return .word (← payload Operand.reader)
  | "Block" => return .block (← payload Operand.reader)
  | "Equate" => return .equate (← payload Operand.reader)
  | "Section" =>
    openPayload
    let name ← string
    nextPayload
    let flags ← string
    closePayload
    return .opening name flags
  | "Export" => return .exported (← payload string)
  | "Import" => return .imported (← payload string)
  | "Input" => return .input (← payload string)
  | "Output" => return .output (← payload string)
  | "Scall" => return .systemCall (← payload string)
  | "Org" => return .org (← payload Operand.reader)
  | "Burn" => return .burn (← payload Operand.reader)
  | _ => failure

/-- The fields of a line that have been read so far. -/
structure SourceLine.Fields where
  symbol : Option (Option String) := none
  operation : Option Operation := none
  comment : Option (Option String) := none

/-- Reads a line. -/
def SourceLine.reader : Reader SourceLine := do
  let fields ← record "SourceLine" ({} : SourceLine.Fields) fun key fields => do
    match key with
    | "symbol" => return { fields with symbol := ← once fields.symbol (option string) }
    | "op" => return { fields with operation := ← once fields.operation Operation.reader }
    | "comment" => return { fields with comment := ← once fields.comment (option string) }
    | _ => failure
  match fields.operation with
  | some operation =>
    return { symbol? := fields.symbol.join, operation, comment? := fields.comment.join }
  | none => failure

/-- Reads a document.  Without lines it is empty. -/
def Document.reader : Reader Document := do
  let lines ← record "Document" (none : Option (List SourceLine)) fun key lines => do
    match key with
    | "lines" => once lines (list SourceLine.reader)
    | _ => failure
  return { lines := lines.getD [] }

/-- The document a text holds. -/
def Document.read? (text : String) : Option Document :=
  Ron.read? Document.reader text

end Pep10
