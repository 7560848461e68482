import Pep10.Document.Reading
import Pep10.Line.Basic
import Pep10.Symbol.Table
import Pep10.Text.Unseen

/-!
# Lowering

Lowering checks the lines of a document one after the other and turns them into the lines of a
program.  The names it meets are entered in a symbol table, on each line the operand's before the
label's.
-/

namespace Pep10

/-- Why a document is no program.  Lines are counted from one. -/
inductive DocumentError where
  | unreadable
  | unexpectedOperand (line : Nat) (mnemonic : Mnemonic)
  | missingOperand (line : Nat) (mnemonic : Mnemonic)
  | invalidFlags (line : Nat) (flags : String)
  | invalidAlignment (line : Nat)
  | invalidBlockSize (line : Nat)
  | nonAsciiCharacter (line : Nat) (char : Char)
  deriving DecidableEq

/-- The text of a document error. -/
def DocumentError.message : DocumentError → String
  | .unreadable => "failed to parse IR document"
  | .unexpectedOperand n m => s!"line {n}: '{m.name}' is unary and takes no operand"
  | .missingOperand n m => s!"line {n}: '{m.name}' requires an operand"
  | .invalidFlags n flags => s!"line {n}: invalid section flags \"" ++ flags ++ "\""
  | .invalidAlignment n => s!"line {n}: .ALIGN requires 1, 2, 4 or 8"
  | .invalidBlockSize n => s!"line {n}: .BLOCK requires a constant between 0 and 65535"
  | .nonAsciiCharacter n c => s!"line {n}: character {Text.quoteChar c} is not ASCII"

/-- A computation that may enter names in a symbol table and may find a line invalid. -/
abbrev Lowering := StateT SymbolTable (Except DocumentError)

namespace Lowering

/-- The operand that names a symbol. -/
def reference (name : String) : Lowering Argument := do
  let (i, table) := (← get).reference name
  set table
  return .symbolic name (table.ref i)

/-- The position of a symbol that a line declares. -/
def define (name : String) : Lowering SymbolId := do
  let (i, table) := (← get).define name
  set table
  return i

/-- The operand that names a symbol, which gets a binding. -/
def annotate (name : String) (binding : Binding) : Lowering Argument := do
  let (i, table) := (← get).reference name
  set (table.setBinding i binding)
  return .symbolic name (table.ref i)

end Lowering

/-- The bytes of a text in UTF-8. -/
def utf8Bytes (text : String) : List UInt8 :=
  text.toList.flatMap String.utf8EncodeChar

/-- The operand of a line of a program. -/
def Operand.lower (number : Nat) : Operand → Lowering Argument
  | .decimal value => return .literal (.decimal value)
  | .hexadecimal value => return .literal (.hexadecimal value)
  | .character c =>
    if c.toNat < 128 then return .literal (.character (UInt8.ofNat c.toNat))
    else throw (.nonAsciiCharacter number c)
  | .text value => return .literal (.text (utf8Bytes value))
  | .symbol name => Lowering.reference name

/-- The kind of a line of a program. -/
def Operation.lower (number : Nat) : Operation → Lowering LineKind
  | .blank => return .blank
  | .comment => return .comment
  | .unary m =>
    if m.isUnary then return .monadic m
    else throw (.missingOperand number m)
  | .nonUnary m operand mode =>
    if m.isUnary then throw (.unexpectedOperand number m)
    else return .dyadic m mode (← operand.lower number)
  | .align operand => do
    let a ← operand.lower number
    if a.count? ∈ [some 1, some 2, some 4, some 8] then return .align a
    else throw (.invalidAlignment number)
  | .ascii text => return .data .ascii (.literal (.text (utf8Bytes text)))
  | .byte operand => return .data .byte (← operand.lower number)
  | .word operand => return .data .word (← operand.lower number)
  | .block operand => do
    let a ← operand.lower number
    if a.count?.isSome then return .block a
    else throw (.invalidBlockSize number)
  | .equate operand => return .equate (← operand.lower number)
  | .opening name flags =>
    match Flags.parse? flags with
    | some parsed => return .opening ⟨name, parsed⟩
    | none => throw (.invalidFlags number flags)
  | .exported name => return .annotate .exported (← Lowering.annotate name .global)
  | .imported name => return .annotate .imported (← Lowering.annotate name .imported)
  | .input name => return .annotate .input (← Lowering.reference name)
  | .output name => return .annotate .output (← Lowering.reference name)
  | .systemCall name => return .annotate .systemCall (← Lowering.reference name)
  | .org operand => return .origin .org (← operand.lower number)
  | .burn operand => return .origin .burn (← operand.lower number)

/-- A line of a program. -/
def SourceLine.lower (number : Nat) (s : SourceLine) : Lowering Line := do
  let kind ← s.operation.lower number
  let symbol? ← s.symbol?.mapM Lowering.define
  return { kind, symbol?, comment? := s.comment? }

/-- Lines of a program, the first of which has the given number. -/
def lowerLines : (number : Nat) → List SourceLine → Lowering Program
  | _, [] => return []
  | number, s :: rest => do
    let line ← s.lower number
    let lines ← lowerLines (number + 1) rest
    return line :: lines

/-- A program and the symbols it mentions. -/
structure ProgramUnit where
  program : Program
  symbols : SymbolTable
  deriving DecidableEq

namespace Document

/-- Lower a document.  Its symbols get a table of their own, with the given identifier. -/
def lower (d : Document) (id : TableId) : Except DocumentError ProgramUnit := do
  let (program, symbols) ← (lowerLines 1 d.lines).run { id }
  return { program, symbols }

/-- The document a text holds. -/
def parse (text : String) : Except DocumentError Document :=
  match Document.read? text with
  | some d => .ok d
  | none => .error .unreadable

end Document

end Pep10
