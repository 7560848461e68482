import Pep10.Assembly
import Pep10.Ron.Compound
import Pep10.Ron.Literal

/-!
# Configurations

A configuration sets the base address, the section that is open at the start, and the form of the
output.  Every setting has a default.
-/

namespace Pep10

/-- The form of the output. -/
inductive OutputKind where
  | rawBinary
  | objectText
  deriving DecidableEq

/-- The ending of the names of output files. -/
def OutputKind.extension : OutputKind → String
  | .rawBinary => "bin"
  | .objectText => "pepo"

/-- The section that is open at the start.  Its flags are checked only when they are used. -/
structure DefaultSection where
  name : String := ".text"
  flags : String := "rwx"
  deriving DecidableEq

/-- What is written. -/
structure OutputSpec where
  kind : OutputKind := .objectText
  listing : Bool := true
  deriving DecidableEq

/-- A configuration. -/
structure Config where
  base : UInt16 := 0
  defaultSection : DefaultSection := {}
  output : OutputSpec := {}
  deriving DecidableEq

/-- Why a configuration cannot be used. -/
inductive ConfigError where
  | invalidFlags (flags name : String)
  deriving DecidableEq

/-- The text of a configuration error. -/
def ConfigError.message : ConfigError → String
  | .invalidFlags flags name =>
    "invalid flags \"" ++ flags ++ "\" for default section '" ++ name ++ "'"

namespace Config

/-- The section that is open at the start. -/
def initial (c : Config) : Except ConfigError Heading :=
  let ⟨name, text⟩ := c.defaultSection
  match Flags.parse? text with
  | some flags => .ok ⟨name, flags⟩
  | none => .error (.invalidFlags text name)

/-- The options of an assembly with some linked tables. -/
def options (c : Config) (linked : List SymbolTable) : Except ConfigError Options := do
  return { base := c.base, initial := ← c.initial, linked }

end Config

open Ron

/-- Reads the form of the output. -/
def OutputKind.reader : Reader OutputKind := do
  match ← Ron.word with
  | "RawBinary" => return .rawBinary
  | "ObjectText" => return .objectText
  | _ => failure

/-- Reads what is written. -/
def OutputSpec.reader : Reader OutputSpec := do
  let (kind, listing) ← record "OutputSpec" (none, none) fun key (kind, listing) => do
    match key with
    | "kind" => return (← once kind OutputKind.reader, listing)
    | "listing" => return (kind, ← once listing bool)
    | _ => failure
  return { kind := kind.getD .objectText, listing := listing.getD true }

/-- Reads the section that is open at the start. -/
def DefaultSection.reader : Reader DefaultSection := do
  let (name, flags) ← record "DefaultSection" (none, none) fun key (name, flags) => do
    match key with
    | "name" => return (← once name string, flags)
    | "flags" => return (name, ← once flags string)
    | _ => failure
  return { name := name.getD ".text", flags := flags.getD "rwx" }

/-- Reads a configuration. -/
def Config.reader : Reader Config := do
  let (base, defaultSection, output) ←
    record "AssemblerConfig" (none, none, none) fun key (base, defaultSection, output) => do
      match key with
      | "initial_base_address" => return (← once base uint16, defaultSection, output)
      | "default_section" =>
        return (base, ← once defaultSection DefaultSection.reader, output)
      | "output" => return (base, defaultSection, ← once output OutputSpec.reader)
      | _ => failure
  return {
    base := base.getD 0
    defaultSection := defaultSection.getD {}
    output := output.getD {} }

/-- The configuration a text holds. -/
def Config.read? (text : String) : Option Config :=
  Ron.read? Config.reader text

end Pep10
