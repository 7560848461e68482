import Pep10.Instruction.Opcode

/-!
# Documents

A program as a document holds it: lines whose operands name symbols by their names.
-/

namespace Pep10

/-- An operand in a document. -/
inductive Operand where
  | decimal (value : Int32)
  | hexadecimal (value : UInt16)
  | character (value : Char)
  | text (value : String)
  | symbol (name : String)
  deriving DecidableEq

/-- What a line of a document says. -/
inductive Operation where
  | blank
  | comment
  | unary (mnemonic : Mnemonic)
  | nonUnary (mnemonic : Mnemonic) (operand : Operand) (mode : Option AddressingMode)
  | align (operand : Operand)
  | ascii (text : String)
  | byte (operand : Operand)
  | word (operand : Operand)
  | block (operand : Operand)
  | equate (operand : Operand)
  | opening (name flags : String)
  | exported (name : String)
  | imported (name : String)
  | input (name : String)
  | output (name : String)
  | systemCall (name : String)
  | org (operand : Operand)
  | burn (operand : Operand)
  deriving DecidableEq

/-- A line of a document. -/
structure SourceLine where
  symbol? : Option String := none
  operation : Operation
  comment? : Option String := none
  deriving DecidableEq

/-- The lines of a program as written. -/
structure Document where
  lines : List SourceLine := []
  deriving DecidableEq

end Pep10
