import Pep10.Layout.Assign
import Pep10.ObjectCode
import Pep10.Symbol.Resolve

/-!
# Assembly

A program is assembled by binding its imports, splitting it into sections, laying them out, and
emitting their object code.  The symbol table gets the values of all declared symbols, also of
those placed before an error.
-/

namespace Pep10

/-- Does an entry offer its symbol to other programs? -/
def SymbolEntry.isExported (e : SymbolEntry) : Bool :=
  e.binding = .global && e.isSingle

/-- The symbol of a given name that a table exports. -/
def SymbolTable.export? (t : SymbolTable) (name : String) : Option SymbolRef := do
  let i ← t.find? name
  let e ← t.get? i
  if e.isExported then some (t.ref i) else none

/-- Point an imported symbol without a value at the first linked table that exports its name. -/
def SymbolEntry.bindImport (linked : List SymbolTable) (e : SymbolEntry) : SymbolEntry :=
  if e.binding = .imported && e.value.isEmpty then
    match linked.findSome? (·.export? e.name) with
    | some target => { e with value := .external target }
    | none => e
  else e

/-- Bind the imports of a table. -/
def SymbolTable.bindImports (t : SymbolTable) (linked : List SymbolTable) : SymbolTable :=
  { t with entries := t.entries.map (·.bindImport linked) }

/-- What an assembly depends on besides the program. -/
structure Options where
  /-- The first address of a program that fixes none. -/
  base : UInt16 := 0
  /-- The section that is open before the first line. -/
  initial : Heading := .text
  /-- The tables in which imports are looked up. -/
  linked : List SymbolTable := []

/-- An assembled program. -/
structure Assembly where
  sections : List Section
  systemCalls : List String
  devices : List Device
  addresses : LineTable Address
  object : ObjectCode

/-- The bytes of a section. -/
def Assembly.sectionBytes (a : Assembly) (index : Nat) : List UInt8 :=
  a.object.buffers[index]?.getD []

/-- The outcome of an assembly and the symbol table after it. -/
structure Assembled where
  symbols : SymbolTable
  outcome : Except AssemblyError Assembly

/-- Assemble a program. -/
def assemble (program : Program) (symbols : SymbolTable) (options : Options) : Assembled :=
  let bound := symbols.bindImports options.linked
  match program.split bound options.initial with
  | .error e => ⟨bound, .error e⟩
  | .ok split =>
    let layout := assign bound.id split.sections options.base
    let final := layout.enterInto bound
    { symbols := final
      outcome := do
        let sections ← layout.outcome
        let object ← emit sections layout.addresses (final.resolveRef · options.linked)
        return {
          sections
          systemCalls := split.systemCalls
          devices := split.devices
          addresses := layout.addresses
          object } }

end Pep10
