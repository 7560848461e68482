import Pep10.Layout.Schedule
import Pep10.LineTable

/-!
# Placements

Walking along lines, forward from a base address or backward from it, places each of them: it
gets an address and a size, and the symbol it declares gets a value.  A walk that meets an
unusable operand ends there, and what it placed before stays placed.
-/

namespace Pep10

/-- The address and the size of a line that takes at least one byte. -/
structure Address where
  address : UInt16
  size : UInt16
  deriving DecidableEq

/-- The value a line gives to the symbol it declares. -/
structure Definition where
  symbol : SymbolId
  value : SymbolValue
  /-- The section of a label; other symbols keep the section they have. -/
  sectionIndex? : Option Nat
  deriving DecidableEq

/-- Enter a definition in a table. -/
def SymbolTable.enter (t : SymbolTable) (d : Definition) : SymbolTable :=
  let t := t.setValue d.symbol d.value
  match d.sectionIndex? with
  | none => t
  | some index => t.setSection d.symbol index

/-- Where a line was placed, and what it defined. -/
structure Placement where
  line : NumberedLine
  /-- The base at which the line was visited. -/
  base : UInt16
  address : UInt16
  size : UInt16
  definition? : Option Definition
  deriving DecidableEq

/-- The table entry of a placement; a line that takes no bytes has none. -/
def Placement.entry? (p : Placement) : Option (LineId × Address) :=
  if p.size = 0 then none else some (p.line.id, ⟨p.address, p.size⟩)

/-- The number of bytes that placed lines take. -/
def totalSize : List Placement → Nat
  | [] => 0
  | p :: rest => p.size.toNat + totalSize rest

/-- A result that was reached by placing lines, or an error, and the placements made until
then. -/
structure Traced (α : Type) where
  placements : List Placement
  outcome : Except AssemblyError α

namespace Traced

/-- An error before anything is placed. -/
def fail {α : Type} (e : AssemblyError) : Traced α :=
  ⟨[], .error e⟩

instance : Monad Traced where
  pure a := ⟨[], .ok a⟩
  bind t f :=
    match t.outcome with
    | .error e => ⟨t.placements, .error e⟩
    | .ok a => ⟨t.placements ++ (f a).placements, (f a).outcome⟩

/-- The addresses of the lines that were placed. -/
def addresses {α : Type} (t : Traced α) : LineTable Address :=
  .ofInserts (t.placements.filterMap Placement.entry?)

/-- A symbol table after the definitions made. -/
def enterInto {α : Type} (t : Traced α) (symbols : SymbolTable) : SymbolTable :=
  (t.placements.filterMap (·.definition?)).foldl SymbolTable.enter symbols

end Traced

/-- The value an operand gives to the symbol of an `.EQUATE` in the table `owner`. -/
def equateValue (owner : TableId) (line : LineId) : Argument → Except AssemblyError SymbolValue
  | .symbolic _ r => .ok (if r.table = owner then .internal r.entry else .external r)
  | .literal l =>
    match l.value 2 with
    | .ok value => .ok (.constant (.word value))
    | .error e => .error (.unsupportedArgument line (.constant e))

/-- A pass over lines of one section: the table of the symbols they declare, the position of the
section, and the direction. -/
structure Pass where
  owner : TableId
  index : Nat
  direction : Direction

namespace Pass

/-- The definition of a label at a place. -/
def label (pass : Pass) (l : NumberedLine) (address size : UInt16) : Option Definition :=
  l.line.symbol?.map fun symbol =>
    let kind := if l.line.isInstruction then .code else .object
    ⟨symbol, .location (.at address size kind), some pass.index⟩

/-- The definition that an `.EQUATE` makes.  Without a symbol it makes none, whatever its
operand. -/
def equate (pass : Pass) (l : NumberedLine) (a : Argument) :
    Except AssemblyError (Option Definition) :=
  match l.line.symbol? with
  | none => .ok none
  | some symbol => do return some ⟨symbol, ← equateValue pass.owner l.id a, none⟩

/-- Place one line at a base address.  The second result is the base of the line that is placed
next. -/
def place (pass : Pass) (base : UInt16) (l : NumberedLine) :
    Except AssemblyError (Placement × UInt16) :=
  match l.line.kind with
  | .origin .org a => do
    let origin ← originValue l.id a
    return (⟨l, base, origin, 0, pass.label l origin 0⟩, origin)
  | .equate a => do return (⟨l, base, base, 0, ← pass.equate l a⟩, base)
  | _ =>
    let size := l.line.size base
    match pass.direction with
    | .forward => return (⟨l, base, base, size, pass.label l base size⟩, base + size)
    | .backward =>
      let next := base - size
      let address := if size = 0 then next else next + 1
      return (⟨l, base, address, size, pass.label l address size⟩, next)

/-- Place lines one after the other, and yield the base after the last of them. -/
def visit (pass : Pass) : (base : UInt16) → List NumberedLine → Traced UInt16
  | base, [] => pure base
  | base, l :: lines =>
    match pass.place base l with
    | .error e => .fail e
    | .ok (p, next) =>
      let rest := visit pass next lines
      ⟨p :: rest.placements, rest.outcome⟩

end Pass

/-- What a walk along some lines covers. -/
structure Walk where
  entry : UInt16
  exit : UInt16
  /-- The address of the first line visited that takes bytes. -/
  first? : Option UInt16
  bytes : Nat
  deriving DecidableEq

/-- Walk along lines in the direction of a pass, starting from a base. -/
def Pass.walk (pass : Pass) (base : UInt16) (lines : List NumberedLine) : Traced Walk :=
  let visited := pass.visit base (pass.direction.order lines)
  { placements := visited.placements
    outcome := visited.outcome.map fun exit =>
      { entry := base
        exit
        first? := (visited.placements.find? (·.size ≠ 0)).map (·.address)
        bytes := totalSize visited.placements } }

end Pep10
