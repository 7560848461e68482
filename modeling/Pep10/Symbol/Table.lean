import Pep10.Symbol.Value

/-!
# Symbol tables

A table lists its entries in the order in which their names were first mentioned.  A name has at
most one entry, and the position of an entry never changes.
-/

namespace Pep10

/-- How often a name has been defined. -/
inductive DefinitionState where
  | undefined
  | single
  | multiple
  deriving DecidableEq

/-- The state after one more definition. -/
def DefinitionState.next : DefinitionState → DefinitionState
  | .undefined => .single
  | _ => .multiple

/-- Who can see a symbol. -/
inductive Binding where
  | localOnly
  | global
  | imported
  deriving DecidableEq

/-- A named symbol of a table. -/
structure SymbolEntry where
  name : String
  state : DefinitionState := .undefined
  binding : Binding := .localOnly
  value : SymbolValue := .empty
  /-- The section a label was laid out in. -/
  sectionIndex? : Option Nat := none
  deriving DecidableEq

/-- Is the symbol defined exactly once? -/
def SymbolEntry.isSingle (e : SymbolEntry) : Bool :=
  e.state = .single

/-- The symbols of one program, by order of first mention. -/
structure SymbolTable where
  id : TableId
  entries : List SymbolEntry := []
  deriving DecidableEq

namespace SymbolTable

/-- The number of entries. -/
def size (t : SymbolTable) : Nat :=
  t.entries.length

/-- The entry at a position. -/
def get? (t : SymbolTable) (i : SymbolId) : Option SymbolEntry :=
  t.entries[i]?

/-- The name of the entry at a position. -/
def name? (t : SymbolTable) (i : SymbolId) : Option String :=
  (t.get? i).map (·.name)

/-- The value of the entry at a position. -/
def value? (t : SymbolTable) (i : SymbolId) : Option SymbolValue :=
  (t.get? i).map (·.value)

/-- The position of a name. -/
def find? (t : SymbolTable) (name : String) : Option SymbolId :=
  t.entries.findIdx? (·.name == name)

/-- Does a reference point into this table? -/
def owns (t : SymbolTable) (r : SymbolRef) : Bool :=
  r.table = t.id

/-- The reference to an entry of this table. -/
def ref (t : SymbolTable) (i : SymbolId) : SymbolRef :=
  ⟨t.id, i⟩

/-- Change the entry at a position.  Past the end there is nothing to change. -/
def modify (t : SymbolTable) (i : SymbolId) (f : SymbolEntry → SymbolEntry) : SymbolTable :=
  { t with entries := t.entries.modify i f }

/-- Give an entry a value. -/
def setValue (t : SymbolTable) (i : SymbolId) (value : SymbolValue) : SymbolTable :=
  t.modify i ({ · with value })

/-- Give an entry a binding. -/
def setBinding (t : SymbolTable) (i : SymbolId) (binding : Binding) : SymbolTable :=
  t.modify i ({ · with binding })

/-- Say in which section an entry was laid out. -/
def setSection (t : SymbolTable) (i : SymbolId) (index : Nat) : SymbolTable :=
  t.modify i ({ · with sectionIndex? := some index })

/-- The position of a name, which gets a new entry at the end when it has none. -/
def reference (t : SymbolTable) (name : String) : SymbolId × SymbolTable :=
  match t.find? name with
  | some i => (i, t)
  | none => (t.size, { t with entries := t.entries ++ [{ name }] })

/-- The position of a name, after one more definition of it. -/
def define (t : SymbolTable) (name : String) : SymbolId × SymbolTable :=
  let (i, t) := t.reference name
  (i, t.modify i fun e => { e with state := e.state.next })

end SymbolTable

end Pep10
