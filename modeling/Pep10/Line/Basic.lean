import Pep10.Argument
import Pep10.Flags
import Pep10.Instruction.Opcode

/-!
# Lines

A line of a program is an instruction, a directive, or nothing but a comment; it may declare a
symbol.  The size of a line is the number of bytes it takes where it is placed.
-/

namespace Pep10

/-- The directives that lay down the bytes of their operand. -/
inductive DataKind where
  | ascii
  | byte
  | word
  deriving DecidableEq

/-- The directives that say something about a symbol. -/
inductive AnnotationKind where
  | exported
  | imported
  | input
  | output
  | systemCall
  deriving DecidableEq

/-- The directives that fix an address: that of the next byte, or that of the last one. -/
inductive OriginKind where
  | org
  | burn
  deriving DecidableEq

/-- What a line says. -/
inductive LineKind where
  | blank
  | comment
  | monadic (mnemonic : Mnemonic)
  | dyadic (mnemonic : Mnemonic) (mode : Option AddressingMode) (argument : Argument)
  | align (argument : Argument)
  | data (kind : DataKind) (argument : Argument)
  | block (argument : Argument)
  | equate (argument : Argument)
  | opening (heading : Heading)
  | annotate (kind : AnnotationKind) (argument : Argument)
  | origin (kind : OriginKind) (argument : Argument)
  deriving DecidableEq

/-- A line, the symbol it declares and its comment. -/
structure Line where
  kind : LineKind
  symbol? : Option SymbolId := none
  comment? : Option String := none
  deriving DecidableEq

/-- The position of a line in its program. -/
abbrev LineId := Nat

/-- A line's number as people count. -/
def LineId.display (id : LineId) : String :=
  s!"line {id + 1}"

/-- A line together with its position. -/
structure NumberedLine where
  id : LineId
  line : Line
  deriving DecidableEq

/-- A program is its lines from first to last. -/
abbrev Program := List Line

/-- The lines of a program with their positions. -/
def Program.numbered (program : Program) : List NumberedLine :=
  program.zipIdx.map fun (line, id) => ⟨id, line⟩

/-- The distance from `base` to the next multiple of `n`. -/
def padding (n base : UInt16) : UInt16 :=
  if n ≤ 1 then 0 else (n - base % n) % n

namespace Line

/-- Is the line an instruction? -/
def isInstruction (l : Line) : Bool :=
  match l.kind with
  | .monadic _ => true
  | .dyadic _ _ _ => true
  | _ => false

/-- The number of bytes a line takes at `base`, for the kinds of lines that can take any. -/
def size? (l : Line) (base : UInt16) : Option UInt16 :=
  match l.kind with
  | .monadic _ => some 1
  | .dyadic _ _ _ => some 3
  | .data .byte _ => some 1
  | .data .word _ => some 2
  | .data .ascii a => some (UInt16.ofNat (min 65535 ((a.bytes?.map List.length).getD 0)))
  | .block a => some (a.count?.getD 0)
  | .align a => some (padding (a.count?.getD 1) base)
  | _ => none

/-- The number of bytes a line takes at `base`. -/
def size (l : Line) (base : UInt16) : UInt16 :=
  (l.size? base).getD 0

end Line

end Pep10
