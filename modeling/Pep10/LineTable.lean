import Pep10.Line.Basic

/-!
# Line tables

A table from lines to values.  It is filled in any order, and then sorted by line for looking up;
of several values for one line the last one counts.
-/

namespace Pep10

/-- A table by increasing line. -/
structure LineTable (α : Type) where
  entries : Array (LineId × α)

namespace LineTable

variable {α : Type}

/-- Of neighbours with one line, keep the last. -/
def keepLast : List (LineId × α) → List (LineId × α)
  | [] => []
  | [e] => [e]
  | e :: f :: rest => if e.1 = f.1 then keepLast (f :: rest) else e :: keepLast (f :: rest)

/-- The table of a sequence of insertions. -/
def ofInserts (inserts : List (LineId × α)) : LineTable α :=
  ⟨(keepLast (inserts.mergeSort fun e f => e.1 ≤ f.1)).toArray⟩

/-- The table without entries. -/
def empty : LineTable α :=
  ⟨#[]⟩

/-- The number of lines with a value. -/
def size (t : LineTable α) : Nat :=
  t.entries.size

/-- The entries by increasing line. -/
def toList (t : LineTable α) : List (LineId × α) :=
  t.entries.toList

/-- Search the entries from `lo` to before `hi`, halving them `steps` times at most. -/
def search (t : LineTable α) (line : LineId) : (steps lo hi : Nat) → Option α
  | 0, _, _ => none
  | steps + 1, lo, hi =>
    if lo < hi then
      let middle := (lo + hi) / 2
      match t.entries[middle]? with
      | none => none
      | some (found, value) =>
        if found = line then some value
        else if found < line then search t line steps (middle + 1) hi
        else search t line steps lo middle
    else none

/-- The value of a line. -/
def get? (t : LineTable α) (line : LineId) : Option α :=
  t.search line (t.size + 1) 0 t.size

/-- Has a line a value? -/
def contains (t : LineTable α) (line : LineId) : Bool :=
  (t.get? line).isSome

end LineTable

end Pep10
