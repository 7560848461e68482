/-!
# Mnemonics

The instructions of the Pep/10 machine, the form of each one, which says what operand and which
addressing modes it takes, and the opcode its encoding starts from.
-/

namespace Pep10

/-- The name of an instruction. -/
inductive Mnemonic where
  | ret | sret | movflga | movaflg | movspa | movasp | nop
  | nega | negx | asla | aslx | asra | asrx | nota | notx | rola | rolx | rora | rorx
  | br | brle | brlt | breq | brne | brge | brgt | brv | brc | call
  | scall | addsp | subsp
  | adda | addx | suba | subx | anda | andx | ora | orx | xora | xorx | cpwa | cpwx | cpba
  | cpbx | ldwa | ldwx | ldba | ldbx
  | stwa | stwx | stba | stbx
  deriving DecidableEq

/-- What an instruction takes after its mnemonic, and which addressing modes are legal. -/
inductive Form where
  /-- No operand and no register field. -/
  | unaryPlain
  /-- No operand; the register is the low bit of the opcode. -/
  | unaryRegister
  /-- An operand, immediate or indexed. -/
  | branch
  /-- An operand in any mode, and no register field. -/
  | plain
  /-- An operand in any mode, and a register. -/
  | register
  /-- An operand in any mode but immediate, and a register. -/
  | store
  deriving DecidableEq

namespace Mnemonic

/-- Every mnemonic, by increasing opcode. -/
def all : List Mnemonic :=
  [.ret, .sret, .movflga, .movaflg, .movspa, .movasp, .nop, .nega, .negx, .asla, .aslx, .asra,
    .asrx, .nota, .notx, .rola, .rolx, .rora, .rorx, .br, .brle, .brlt, .breq, .brne, .brge,
    .brgt, .brv, .brc, .call, .scall, .addsp, .subsp, .adda, .addx, .suba, .subx, .anda, .andx,
    .ora, .orx, .xora, .xorx, .cpwa, .cpwx, .cpba, .cpbx, .ldwa, .ldwx, .ldba, .ldbx, .stwa,
    .stwx, .stba, .stbx]

/-- The mnemonic as written in source. -/
def name : Mnemonic → String
  | .ret => "RET"
  | .sret => "SRET"
  | .movflga => "MOVFLGA"
  | .movaflg => "MOVAFLG"
  | .movspa => "MOVSPA"
  | .movasp => "MOVASP"
  | .nop => "NOP"
  | .nega => "NEGA"
  | .negx => "NEGX"
  | .asla => "ASLA"
  | .aslx => "ASLX"
  | .asra => "ASRA"
  | .asrx => "ASRX"
  | .nota => "NOTA"
  | .notx => "NOTX"
  | .rola => "ROLA"
  | .rolx => "ROLX"
  | .rora => "RORA"
  | .rorx => "RORX"
  | .br => "BR"
  | .brle => "BRLE"
  | .brlt => "BRLT"
  | .breq => "BREQ"
  | .brne => "BRNE"
  | .brge => "BRGE"
  | .brgt => "BRGT"
  | .brv => "BRV"
  | .brc => "BRC"
  | .call => "CALL"
  | .scall => "SCALL"
  | .addsp => "ADDSP"
  | .subsp => "SUBSP"
  | .adda => "ADDA"
  | .addx => "ADDX"
  | .suba => "SUBA"
  | .subx => "SUBX"
  | .anda => "ANDA"
  | .andx => "ANDX"
  | .ora => "ORA"
  | .orx => "ORX"
  | .xora => "XORA"
  | .xorx => "XORX"
  | .cpwa => "CPWA"
  | .cpwx => "CPWX"
  | .cpba => "CPBA"
  | .cpbx => "CPBX"
  | .ldwa => "LDWA"
  | .ldwx => "LDWX"
  | .ldba => "LDBA"
  | .ldbx => "LDBX"
  | .stwa => "STWA"
  | .stwx => "STWX"
  | .stba => "STBA"
  | .stbx => "STBX"

/-- The mnemonic with a given name. -/
def ofName? (text : String) : Option Mnemonic :=
  all.find? (·.name == text)

/-- The form of an instruction. -/
def form : Mnemonic → Form
  | .ret | .sret | .movflga | .movaflg | .movspa | .movasp | .nop => .unaryPlain
  | .nega | .negx | .asla | .aslx | .asra | .asrx | .nota | .notx | .rola | .rolx | .rora
  | .rorx => .unaryRegister
  | .br | .brle | .brlt | .breq | .brne | .brge | .brgt | .brv | .brc | .call => .branch
  | .scall | .addsp | .subsp => .plain
  | .stwa | .stwx | .stba | .stbx => .store
  | _ => .register

/-- Unary instructions take no operand. -/
def isUnary (m : Mnemonic) : Bool :=
  m.form = .unaryPlain || m.form = .unaryRegister

/-- The opcode of the instruction with a zero mode field. -/
def baseOpcode : Mnemonic → UInt8
  | .ret => 0x01
  | .sret => 0x02
  | .movflga => 0x03
  | .movaflg => 0x04
  | .movspa => 0x05
  | .movasp => 0x06
  | .nop => 0x07
  | .nega => 0x18
  | .negx => 0x19
  | .asla => 0x1A
  | .aslx => 0x1B
  | .asra => 0x1C
  | .asrx => 0x1D
  | .nota => 0x1E
  | .notx => 0x1F
  | .rola => 0x20
  | .rolx => 0x21
  | .rora => 0x22
  | .rorx => 0x23
  | .br => 0x24
  | .brle => 0x26
  | .brlt => 0x28
  | .breq => 0x2A
  | .brne => 0x2C
  | .brge => 0x2E
  | .brgt => 0x30
  | .brv => 0x32
  | .brc => 0x34
  | .call => 0x36
  | .scall => 0x38
  | .addsp => 0x40
  | .subsp => 0x48
  | .adda => 0x50
  | .addx => 0x58
  | .suba => 0x60
  | .subx => 0x68
  | .anda => 0x70
  | .andx => 0x78
  | .ora => 0x80
  | .orx => 0x88
  | .xora => 0x90
  | .xorx => 0x98
  | .cpwa => 0xA0
  | .cpwx => 0xA8
  | .cpba => 0xB0
  | .cpbx => 0xB8
  | .ldwa => 0xC0
  | .ldwx => 0xC8
  | .ldba => 0xD0
  | .ldbx => 0xD8
  | .stwa => 0xE0
  | .stwx => 0xE8
  | .stba => 0xF0
  | .stbx => 0xF8

end Mnemonic

end Pep10
