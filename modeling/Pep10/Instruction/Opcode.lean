import Pep10.Instruction.Mnemonic

/-!
# Opcodes

The eight addressing modes and the opcode of a mnemonic with a mode.  A unary instruction stands
without a mode.  A branch keeps its mode in one bit, every other instruction in three.
-/

namespace Pep10

/-- How the operand of an instruction is found. -/
inductive AddressingMode where
  | immediate
  | direct
  | indirect
  | stack
  | stackDeferred
  | indexed
  | stackIndexed
  | stackDeferredIndexed
  deriving DecidableEq

namespace AddressingMode

/-- The modes in the order of their mode field. -/
def all : List AddressingMode :=
  [.immediate, .direct, .indirect, .stack, .stackDeferred, .indexed, .stackIndexed,
    .stackDeferredIndexed]

/-- The mode as written after an operand. -/
def name : AddressingMode → String
  | .immediate => "i"
  | .direct => "d"
  | .indirect => "n"
  | .stack => "s"
  | .stackDeferred => "sf"
  | .indexed => "x"
  | .stackIndexed => "sx"
  | .stackDeferredIndexed => "sfx"

/-- The mode with a given name. -/
def ofName? (text : String) : Option AddressingMode :=
  all.find? (·.name == text)

/-- The three-bit mode field of an opcode. -/
def field : AddressingMode → UInt8
  | .immediate => 0
  | .direct => 1
  | .indirect => 2
  | .stack => 3
  | .stackDeferred => 4
  | .indexed => 5
  | .stackIndexed => 6
  | .stackDeferredIndexed => 7

end AddressingMode

/-- Why a mnemonic and a mode have no opcode. -/
inductive EncodeError where
  | unaryWithMode (mnemonic : Mnemonic)
  | missingMode (mnemonic : Mnemonic)
  | illegalMode (mnemonic : Mnemonic) (mode : AddressingMode)
  deriving DecidableEq

/-- The text of an encoding error. -/
def EncodeError.message : EncodeError → String
  | .unaryWithMode m => s!"'{m.name}' is unary and takes no addressing mode"
  | .missingMode m => s!"'{m.name}' requires an addressing mode"
  | .illegalMode m mode => s!"addressing mode '{mode.name}' is not legal for '{m.name}'"

/-- The opcode of a mnemonic with a mode, or without one. -/
def opcode (m : Mnemonic) (mode : Option AddressingMode) : Except EncodeError UInt8 :=
  match m.form, mode with
  | .unaryPlain, none => .ok m.baseOpcode
  | .unaryRegister, none => .ok m.baseOpcode
  | .unaryPlain, some _ => .error (.unaryWithMode m)
  | .unaryRegister, some _ => .error (.unaryWithMode m)
  | _, none => .error (.missingMode m)
  | .branch, some .immediate => .ok m.baseOpcode
  | .branch, some .indexed => .ok (m.baseOpcode + 1)
  | .branch, some mode => .error (.illegalMode m mode)
  | .store, some .immediate => .error (.illegalMode m .immediate)
  | _, some mode => .ok (m.baseOpcode + mode.field)

end Pep10
