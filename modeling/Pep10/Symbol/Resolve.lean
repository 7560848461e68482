import Pep10.Symbol.Table

/-!
# Resolution

The number a symbol stands for.  Pointers are followed inside a table and into the tables it is
linked with, but no more than thirty-two of them, so a cycle of pointers has no value.
-/

namespace Pep10

/-- What an entry says about its number. -/
inductive Denotation where
  | unknown
  | number (value : UInt64)
  /-- The number is that of an entry of a table. -/
  | pointer (table : SymbolTable) (entry : SymbolId)

namespace SymbolTable

/-- What the entry at a position says.  An external pointer leads into the first linked table
with its identifier. -/
def denotation (t : SymbolTable) (linked : List SymbolTable) (i : SymbolId) : Denotation :=
  match t.value? i with
  | none => .unknown
  | some .empty => .unknown
  | some (.constant c) => .number c.value
  | some (.location l) => .number (l.address + l.offset).toUInt64
  | some (.internal j) => .pointer t j
  | some (.external r) =>
    match linked.find? (·.id == r.table) with
    | none => .unknown
    | some u => .pointer u r.entry

/-- The most pointers that are followed. -/
def maxHops : Nat := 32

/-- The number an entry stands for when at most `hops` pointers are followed. -/
def resolveWithin (linked : List SymbolTable) :
    (hops : Nat) → SymbolTable → SymbolId → Option UInt64
  | hops, t, i =>
    match t.denotation linked i with
    | .unknown => none
    | .number value => some value
    | .pointer u j =>
      match hops with
      | 0 => none
      | hops + 1 => resolveWithin linked hops u j

/-- The number an entry stands for. -/
def resolve (t : SymbolTable) (i : SymbolId) (linked : List SymbolTable) : Option UInt64 :=
  resolveWithin linked maxHops t i

/-- The number a reference stands for: its table is this one, or the first linked one that owns
it. -/
def resolveRef (t : SymbolTable) (r : SymbolRef) (linked : List SymbolTable) : Option UInt64 :=
  if t.owns r then
    t.resolve r.entry linked
  else
    (linked.find? (·.owns r)).bind (·.resolve r.entry linked)

end SymbolTable

end Pep10
