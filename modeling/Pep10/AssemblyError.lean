import Pep10.Line.Basic

/-!
# Assembly errors

The first error ends the assembly of a program.  Errors name the line they are found on.
-/

namespace Pep10

/-- Why an operand cannot be used where it stands. -/
inductive OperandFault where
  | symbolicOrigin (name : String)
  | constant (error : ArgumentError)
  | symbolTooWide (value : UInt64) (name : String) (width : UInt8)
  | notText
  deriving DecidableEq

/-- The text of an operand fault. -/
def OperandFault.message : OperandFault → String
  | .symbolicOrigin name => "origin must be a constant, found symbol \"" ++ name ++ "\""
  | .constant error => error.message
  | .symbolTooWide value name width =>
    "value 0x" ++ Text.hexAtLeast 4 value.toNat ++ " of \"" ++ name ++
      s!"\" does not fit in {width} byte(s)"
  | .notText => ".ASCII requires a string"

/-- Ways in which the tables of an assembly can disagree with each other. -/
inductive Inconsistency where
  /-- A line declares a symbol that the table does not have. -/
  | unknownSymbol
  /-- A schedule has a section that does not exist or comes twice. -/
  | repeatedSection (index : Nat)
  /-- A schedule leaves out sections. -/
  | incompleteSchedule (steps sections : Nat)
  /-- A line ends after the end of its section. -/
  | overrun (name : String) (stop size : Nat)
  /-- The lines of a section do not fill it. -/
  | shortfall (name : String) (emitted size : Nat)
  /-- A line that takes no bytes has an address. -/
  | unaddressable
  /-- The bytes of a line do not fit in the room it has. -/
  | overfull (bytes room : Nat)
  deriving DecidableEq

/-- The text of an inconsistency. -/
def Inconsistency.message : Inconsistency → String
  | .unknownSymbol => "line declares a symbol missing from the table"
  | .repeatedSection index => s!"section {index} scheduled more than once"
  | .incompleteSchedule steps sections =>
    s!"layout schedule has {steps} entries for {sections} sections"
  | .overrun name stop size =>
    "line overruns section \"" ++ name ++ s!"\" ({stop} > {size} bytes)"
  | .shortfall name emitted size =>
    "section \"" ++ name ++ s!"\" emitted {emitted} of {size} bytes"
  | .unaddressable => "non-addressable line has an address"
  | .overfull bytes room => s!"{bytes} bytes do not fit in {room}"

/-- Why a program cannot be assembled. -/
inductive AssemblyError where
  | flagConflict (line : LineId) (name : String) (expected found : Flags)
  | multiplyDefined (line : LineId) (name : String)
  | inconsistent (line? : Option LineId) (cause : Inconsistency)
  | unsupportedArgument (line : LineId) (fault : OperandFault)
  | invalidInstruction (line : LineId) (cause : EncodeError)
  deriving DecidableEq

namespace AssemblyError

/-- The line an error is found on. -/
def line? : AssemblyError → Option LineId
  | .flagConflict line _ _ _ => some line
  | .multiplyDefined line _ => some line
  | .inconsistent line? _ => line?
  | .unsupportedArgument line _ => some line
  | .invalidInstruction line _ => some line

/-- The text of an assembly error. -/
def message : AssemblyError → String
  | .flagConflict line name expected found =>
    line.display ++ ": section \"" ++ name ++ "\" redeclared with flags \"" ++ found.display ++
      "\", expected \"" ++ expected.display ++ "\""
  | .multiplyDefined line name =>
    line.display ++ ": symbol \"" ++ name ++ "\" is defined more than once"
  | .inconsistent _ cause => "internal layout error: " ++ cause.message
  | .unsupportedArgument line fault =>
    line.display ++ ": unsupported argument: " ++ fault.message
  | .invalidInstruction line cause => line.display ++ ": " ++ cause.message

end AssemblyError

end Pep10
